/-
Docstrings are read back.

A description must not end its docstring early, nor take the closing quotes with it.  Three passes
see to that, one behind the other: the first doubles the backslashes, the second escapes a quote at
the very end and the third the quotes of every run of three.  None of them does it alone, since what
one leaves in place is changed by the next.

`IsWritten` says of the outcome what a reader needs: every character stands for itself or behind a
backslash, and a quote that stands for itself does not begin a run of three, also not one that the
closing quotes would complete.  Reading back needs nothing else (`IsWritten.closing_eq`,
`IsWritten.unescaped_eq`), and the passes together bring it about (`isWritten_passes`).
-/
import Mathlib.Data.List.Infix
import ApiClientGen.Code.Docstring

namespace ApiClientGen.Code

open ApiClientGen.Text

/-! ### Reading -/

/--
What stands in front of the first run of three quotes, and what stands behind it.  A backslash
takes the next character with it.
-/
def closing : List Char → Option (List Char × List Char)
  | '\\' :: c :: rest => (closing rest).map fun (front, behind) => ('\\' :: c :: front, behind)
  | '"' :: '"' :: '"' :: rest => some ([], rest)
  | c :: rest => (closing rest).map fun (front, behind) => (c :: front, behind)
  | [] => none

/-- The text without the backslashes that escape a backslash or a quote; no others may stand in it. -/
def unescaped : List Char → Option (List Char)
  | '\\' :: '\\' :: rest => (unescaped rest).map ('\\' :: ·)
  | '\\' :: '"' :: rest => (unescaped rest).map ('"' :: ·)
  | '\\' :: _ => none
  | c :: rest => (unescaped rest).map (c :: ·)
  | [] => some []

/-- A text that stands on lines of its own if it has several. -/
def onOwnLines (s : List Char) : List Char := if '\n' ∈ s then '\n' :: s ++ ['\n'] else s

/-! ### Texts that are read back -/

/-- The second text is the first one with escapes, and can stand between three quotes. -/
inductive IsWritten : List Char → List Char → Prop
  | nil : IsWritten [] []
  | escape {c : Char} {s t : List Char} (hc : c = '\\' ∨ c = '"') (hrest : IsWritten s t) :
      IsWritten (c :: s) ('\\' :: c :: t)
  | plain {c : Char} {s t : List Char} (hc : c ≠ '\\')
      (hquote : c = '"' → ¬ ['"', '"'] <+: t ++ ['"', '"']) (hrest : IsWritten s t) :
      IsWritten (c :: s) (c :: t)

theorem closing_plain {c : Char} {l : List Char} (hc : c ≠ '\\')
    (hquote : c = '"' → ¬ ['"', '"'] <+: l) :
    closing (c :: l) = (closing l).map fun (front, behind) => (c :: front, behind) := by
  rw [closing]
  · rintro d rest rfl
    exact absurd rfl hc
  · rintro rest rfl rfl
    exact absurd ⟨rest, rfl⟩ (hquote rfl)

theorem unescaped_plain {c : Char} (l : List Char) (hc : c ≠ '\\') :
    unescaped (c :: l) = (unescaped l).map (c :: ·) := by
  rw [unescaped]
  · rintro rest rfl
    exact absurd rfl hc
  · rintro rest rfl
    exact absurd rfl hc
  · rintro rfl
    exact absurd rfl hc

/-- What follows the closing quotes cannot complete a run of three in front of them. -/
theorem prefix_quotes_append {t rest : List Char} (h : ['"', '"'] <+: t ++ (tripleQuote ++ rest)) :
    ['"', '"'] <+: t ++ ['"', '"'] := by
  have hshort : t ++ ['"', '"'] <+: t ++ (tripleQuote ++ rest) := ⟨'"' :: rest, by simp [tripleQuote]⟩
  exact List.prefix_of_prefix_length_le h hshort (by simp)

/-- **The closing quotes are found**, and not earlier. -/
theorem IsWritten.closing_eq {s t : List Char} (h : IsWritten s t) (rest : List Char) :
    closing (t ++ (tripleQuote ++ rest)) = some (t, rest) := by
  induction h with
  | nil => rfl
  | escape hc hrest ih => rw [List.cons_append, List.cons_append, closing, ih, Option.map_some]
  | plain hc hquote hrest ih =>
      rw [List.cons_append, closing_plain hc fun h => mt prefix_quotes_append (hquote h), ih,
        Option.map_some]

/-- **The escapes are undone**. -/
theorem IsWritten.unescaped_eq {s t : List Char} (h : IsWritten s t) : unescaped t = some s := by
  induction h with
  | nil => rfl
  | escape hc hrest ih =>
      obtain rfl | rfl := hc
      · rw [unescaped, ih, Option.map_some]
      · rw [unescaped, ih, Option.map_some]
  | plain hc hquote hrest ih => rw [unescaped_plain _ hc, ih, Option.map_some]

theorem IsWritten.mem_newline {s t : List Char} (h : IsWritten s t) : '\n' ∈ t ↔ '\n' ∈ s := by
  induction h with
  | nil => rfl
  | escape hc hrest ih => simp [ih]
  | plain hc hquote hrest ih => simp [ih]

/-- A line end behind a text only moves the closing quotes away from it. -/
theorem IsWritten.append_newline {s t : List Char} (h : IsWritten s t) :
    IsWritten (s ++ ['\n']) (t ++ ['\n']) := by
  induction h with
  | nil => exact .plain (by decide) nofun .nil
  | escape hc hrest ih => exact .escape hc ih
  | @plain c s t hc hquote hrest ih =>
      refine .plain hc (fun h hbegins => hquote h ?_) ih
      match t with
      | [] => simp at hbegins
      | [d] => simp at hbegins
      | d :: e :: t => simpa using hbegins

theorem IsWritten.onOwnLines {s t : List Char} (h : IsWritten s t) :
    IsWritten (onOwnLines s) (onOwnLines t) := by
  unfold Code.onOwnLines
  by_cases hline : '\n' ∈ s
  · rw [if_pos hline, if_pos (h.mem_newline.mpr hline)]
    exact .plain (by decide) nofun h.append_newline
  · rw [if_neg hline, if_neg (mt h.mem_newline.mp hline)]
    exact h

/-- Two quotes at the beginning that stand for themselves are quotes of the description. -/
theorem IsWritten.eq_quotes {s t : List Char} (h : IsWritten s t)
    (hbegins : ['"', '"'] <+: t ++ ['"', '"']) : s = [] ∨ ['"', '"'] <+: s := by
  cases h with
  | nil => exact .inl rfl
  | escape hc hrest => simp at hbegins
  | @plain c s t hc hquote hrest =>
      rw [List.cons_append, List.cons_prefix_cons] at hbegins
      obtain ⟨rfl, hbegins⟩ := hbegins
      cases hrest with
      | nil => exact absurd (by decide) (hquote rfl)
      | escape hd hrest => simp at hbegins
      | plain hd hquote hrest =>
          rw [List.cons_append, List.cons_prefix_cons] at hbegins
          exact .inr ⟨_, by rw [← hbegins.1]; rfl⟩

/-! ### The passes -/

/-- The passes over a description without blanks around it. -/
def passes (s : List Char) : List Char := escapeTripleQuotes (escapeLastQuote (doubleBackslashes s))

theorem doubleBackslashes_plain {c : Char} (s : List Char) (hc : c ≠ '\\') :
    doubleBackslashes (c :: s) = c :: doubleBackslashes s := by
  simp [doubleBackslashes, hc]

theorem escapeLastQuote_cons (c : Char) {l : List Char} (hl : l ≠ []) :
    escapeLastQuote (c :: l) = c :: escapeLastQuote l := by
  unfold escapeLastQuote
  rw [List.getLast?_cons_of_ne_nil hl, List.dropLast_cons_of_ne_nil hl]
  split <;> rfl

theorem escapeTripleQuotes_cons {c : Char} {l : List Char} (h : c = '"' → ¬ ['"', '"'] <+: l) :
    escapeTripleQuotes (c :: l) = c :: escapeTripleQuotes l := by
  rw [escapeTripleQuotes]
  rintro rest rfl rfl
  exact absurd ⟨rest, rfl⟩ (h rfl)

theorem doubleBackslashes_ne_nil {s : List Char} (hs : s ≠ []) : doubleBackslashes s ≠ [] := by
  obtain ⟨c, s, rfl⟩ := List.exists_cons_of_ne_nil hs
  by_cases hc : c = '\\' <;> simp [doubleBackslashes, hc]

theorem prefix_of_prefix_doubleBackslashes {s : List Char}
    (h : ['"', '"'] <+: doubleBackslashes s) : ['"', '"'] <+: s := by
  match s with
  | [] => exact h
  | c :: s =>
      by_cases hc : c = '\\'
      · simp [doubleBackslashes, hc] at h
      rw [doubleBackslashes_plain s hc, List.cons_prefix_cons] at h
      refine List.cons_prefix_cons.mpr ⟨h.1, ?_⟩
      match s with
      | [] => exact h.2
      | d :: s =>
          by_cases hd : d = '\\'
          · simp [doubleBackslashes, hd] at h
          rw [doubleBackslashes_plain s hd, List.cons_prefix_cons] at h
          exact List.cons_prefix_cons.mpr ⟨h.2.1, List.nil_prefix⟩

theorem prefix_of_prefix_escapeLastQuote {l : List Char} (h : ['"', '"'] <+: escapeLastQuote l) :
    ['"', '"'] <+: l := by
  unfold escapeLastQuote at h
  split at h
  next hlast =>
    obtain ⟨m, rfl⟩ := List.getLast?_eq_some_iff.mp hlast
    rw [List.dropLast_concat] at h
    match m with
    | [] => simp at h
    | [c] => simp at h
    | c :: d :: m => simpa using h
  next => exact h

theorem passes_backslash (s : List Char) : passes ('\\' :: s) = '\\' :: '\\' :: passes s := by
  have hlast : ∀ l : List Char,
      escapeLastQuote ('\\' :: '\\' :: l) = '\\' :: '\\' :: escapeLastQuote l := by
    intro l
    cases l with
    | nil => rfl
    | cons c l => rw [escapeLastQuote_cons _ (by simp), escapeLastQuote_cons _ (by simp)]
  have hdouble : doubleBackslashes ('\\' :: s) = '\\' :: '\\' :: doubleBackslashes s := rfl
  rw [passes, hdouble, hlast, escapeTripleQuotes_cons (by simp), escapeTripleQuotes_cons (by simp),
    passes]

/-- A character that stands for itself, be it a quote or not, is left in place. -/
theorem passes_cons {c : Char} {s : List Char} (hc : c ≠ '\\')
    (hquote : c = '"' → s ≠ [] ∧ ¬ ['"', '"'] <+: s) : passes (c :: s) = c :: passes s := by
  have hlast : escapeLastQuote (c :: doubleBackslashes s) = c :: escapeLastQuote (doubleBackslashes s) := by
    by_cases hs : s = []
    · subst hs
      have hplain : c ≠ '"' := fun h => (hquote h).1 rfl
      simp [doubleBackslashes, escapeLastQuote, hplain]
    · exact escapeLastQuote_cons c (doubleBackslashes_ne_nil hs)
  rw [passes, doubleBackslashes_plain s hc, hlast, escapeTripleQuotes_cons, passes]
  exact fun h hbegins =>
    (hquote h).2 (prefix_of_prefix_doubleBackslashes (prefix_of_prefix_escapeLastQuote hbegins))

/-- A run of three quotes is escaped if something follows it. -/
theorem passes_tripleQuote {s : List Char} (hs : s ≠ []) :
    passes ('"' :: '"' :: '"' :: s)
      = '\\' :: '"' :: '\\' :: '"' :: '\\' :: '"' :: passes s := by
  have hdouble : doubleBackslashes ('"' :: '"' :: '"' :: s)
      = '"' :: '"' :: '"' :: doubleBackslashes s := rfl
  rw [passes, hdouble, escapeLastQuote_cons _ (by simp), escapeLastQuote_cons _ (by simp),
    escapeLastQuote_cons _ (doubleBackslashes_ne_nil hs), escapeTripleQuotes, passes]

/-- **The passes write a text that is read back.** -/
theorem isWritten_passes (s : List Char) : IsWritten s (passes s) := by
  -- The cases are those of the last pass, which sees the runs of quotes.
  induction s using escapeTripleQuotes.induct with
  | case1 s ih =>
      by_cases hs : s = []
      · subst hs
        -- The second pass takes the last quote of the run, so that the third finds no run.
        have hrun : passes ['"', '"', '"'] = ['"', '"', '\\', '"'] := by decide
        rw [hrun]
        exact .plain (by decide) (by decide) (.plain (by decide) (by decide) (.escape (.inr rfl) .nil))
      · rw [passes_tripleQuote hs]
        exact .escape (.inr rfl) (.escape (.inr rfl) (.escape (.inr rfl) ih))
  | case2 c s hrun ih =>
      by_cases hbackslash : c = '\\'
      · subst hbackslash
        rw [passes_backslash]
        exact .escape (.inl rfl) ih
      by_cases hend : c = '"' ∧ s = []
      · obtain ⟨rfl, rfl⟩ := hend
        exact .escape (.inr rfl) .nil
      have hfree : c = '"' → s ≠ [] ∧ ¬ ['"', '"'] <+: s := by
        rintro rfl
        refine ⟨fun hs => hend ⟨rfl, hs⟩, ?_⟩
        rintro ⟨rest, rfl⟩
        exact hrun rest rfl rfl
      rw [passes_cons hbackslash hfree]
      exact .plain hbackslash (fun h hbegins => (ih.eq_quotes hbegins).elim (hfree h).1 (hfree h).2) ih
  | case3 => exact .nil

/-! ### The whole docstring -/

/-- The docstring of a description puts the outcome of the passes between quotes. -/
theorem toList_docstring {description : String} (h : description ≠ "") :
    (docstring description).toList
      = tripleQuote ++ (onOwnLines (passes (trim description.toList)) ++ tripleQuote) := by
  have hlines : ∀ body : List Char,
      (if body.contains '\n' then '\n' :: body ++ ['\n'] else body) = onOwnLines body :=
    fun body => if_congr List.contains_iff_mem rfl rfl
  rw [docstring, if_neg h, String.toList_ofList, hlines, docstringBody, List.append_assoc, passes]

/--
**A docstring is read back, and nothing can break out of it**: it begins with three quotes, the
first run of three behind them that no backslash escapes is the one that it ends in, whatever stands
behind it, and without the escapes there stands the description in front of that run, without the
blanks around it and on lines of its own if it has several.
-/
theorem docstring_reads_back {description : String} (h : description ≠ "") :
    ∃ between,
      (docstring description).toList = tripleQuote ++ (between ++ tripleQuote)
        ∧ (∀ rest, closing (between ++ (tripleQuote ++ rest)) = some (between, rest))
        ∧ unescaped between = some (onOwnLines (trim description.toList)) := by
  have hwritten := (isWritten_passes (trim description.toList)).onOwnLines
  exact ⟨_, toList_docstring h, hwritten.closing_eq, hwritten.unescaped_eq⟩

/-- A backslash in front of four quotes, which the second and the third pass share. -/
theorem docstring_reads_back_quoteRun :
    " \\\"\"\"\"\t" ≠ "" ∧ ∃ between,
      (docstring " \\\"\"\"\"\t").toList = tripleQuote ++ (between ++ tripleQuote)
        ∧ closing (between ++ (tripleQuote ++ "\"\"\"".toList)) = some (between, "\"\"\"".toList)
        ∧ unescaped between = some "\\\"\"\"\"".toList := by
  have hsome : " \\\"\"\"\"\t" ≠ "" := by decide
  obtain ⟨between, htext, hclosing, hback⟩ := docstring_reads_back hsome
  refine ⟨hsome, between, htext, hclosing _, ?_⟩
  have htrim : onOwnLines (trim " \\\"\"\"\"\t".toList) = "\\\"\"\"\"".toList := by decide
  rw [hback, htrim]

end ApiClientGen.Code
