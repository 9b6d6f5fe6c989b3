/-
Texts as they are written.

A text is written character by character between double quotes: a few characters stand behind a
backslash, and one that cannot be shown as it is stands there by its number.  So a quote inside of
the text has an odd number of backslashes in front of it, and the quote behind the text has none
or an even number, which is what readers of the format go by.

Not every text is read back as what it was.  What spoils it is asked for here, by what stands in
the text itself.
-/
import Mathlib.Data.List.Induction
import ApiClientGen.Proofs.Text.Escapes
import ApiClientGen.Toml.Values
import ApiClientGen.Toml.Writer

namespace ApiClientGen.Toml

open ApiClientGen.Number ApiClientGen.Text

/-! ### What characters are written as -/

/-- A character as it is written, if only the numbers behind the letters given are left. -/
def word (marks : List Char) (c : Char) : List Char :=
  match codeMark? c with
  | some mark => if mark ∈ marks then codeEscape c else [c]
  | none => escaped '"' c

/-- A text as it is written between double quotes. -/
def body (s : List Char) : List Char := s.flatMap (escaped '"')

/-- The letters that stand behind a backslash for another character. -/
def shortLetters : List Char := ['"', 'n', 'r', 't']

theorem shortLetter_spec {l : Char} (h : l ∈ shortLetters) :
    l ≠ '\\' ∧ l ≠ 'x' ∧ l ≠ 'u' ∧ l ≠ 'U' ∧ isPrintable l = true ∧ escapeOf? l ≠ some '\\'
      ∧ (escapeOf? l = some l ∨ l.isAlphanum = true) := by
  simp only [shortLetters, List.mem_cons, List.not_mem_nil, or_false] at h
  rcases h with rfl | rfl | rfl | rfl <;> decide

/-! ### The forms of characters -/

theorem notMem_of_isAlphanum {s : List Char} (h : ∀ c ∈ s, c.isAlphanum = true) {c : Char}
    (hc : c.isAlphanum = false) : c ∉ s := by
  intro hmem
  rw [h c hmem] at hc
  cases hc

/-- A character with a short escape is not written by its number. -/
theorem escaped_of_codeMark? {c mark : Char} (h : codeMark? c = some mark) :
    escaped '"' c = codeEscape c := by
  have hne : ∀ d, codeMark? d = none → c ≠ d := by
    rintro d hd rfl
    rw [hd] at h
    cases h
  have hbackslash : c ≠ '\\' := hne _ (by decide)
  have hquote : c ≠ '"' := hne _ (by decide)
  have hfeed : c ≠ '\n' := hne _ rfl
  have hreturn : c ≠ '\r' := hne _ rfl
  have htab : c ≠ '\t' := hne _ rfl
  simp [escaped, hbackslash, hquote, hfeed, hreturn, htab, (codeEscape_of_codeMark? h).1]

/-- The forms in which a character is written. -/
inductive Form : Char → List Char → Prop where
  | backslash : Form '\\' ['\\', '\\']
  /-- A quote, a line break or a tab. -/
  | letter {c l : Char} (h : escapeOf? l = some c) (hl : l ∈ shortLetters) : Form c ['\\', l]
  /-- The character itself. -/
  | plain {c : Char} (hprintable : isPrintable c = true) (hbackslash : c ≠ '\\') (hquote : c ≠ '"') :
      Form c [c]
  /-- The number of the character. -/
  | code {c mark : Char} (h : codeMark? c = some mark) : Form c (codeEscape c)

theorem form_escaped (c : Char) : Form c (escaped '"' c) := by
  unfold escaped
  by_cases hbackslash : c = '\\'
  · subst hbackslash
    exact .backslash
  by_cases hquote : c = '"'
  · subst hquote
    exact .letter rfl (by decide)
  by_cases hfeed : c = '\n'
  · subst hfeed
    exact .letter rfl (by decide)
  by_cases hreturn : c = '\r'
  · subst hreturn
    exact .letter rfl (by decide)
  by_cases htab : c = '\t'
  · subst htab
    exact .letter rfl (by decide)
  rw [if_neg (by simp [hbackslash, hquote]), if_neg hfeed, if_neg hreturn, if_neg htab]
  by_cases hprintable : isPrintable c = true
  · rw [if_pos hprintable]
    exact .plain hprintable hbackslash hquote
  · rw [if_neg hprintable]
    obtain ⟨mark, hmark⟩ := exists_codeMark? hfeed hreturn htab hprintable
    exact .code hmark

/-! ### What stands in a written text -/

/-- A character is written with itself, backslashes, letters and digits. -/
theorem mem_escaped {c d : Char} (h : d ∈ escaped '"' c) : d = c ∨ d = '\\' ∨ d.isAlphanum = true := by
  have hform := form_escaped c
  generalize escaped '"' c = w at hform h
  cases hform with
  | backslash => exact Or.inl (by simpa using h)
  | @letter c l hletter hl =>
      simp only [List.mem_cons, List.not_mem_nil, or_false] at h
      rcases h with rfl | rfl
      · exact Or.inr (Or.inl rfl)
      · obtain ⟨-, -, -, -, -, -, hself | halphanum⟩ := shortLetter_spec hl
        · exact Or.inl (Option.some.inj (hself.symm.trans hletter))
        · exact Or.inr (Or.inr halphanum)
  | plain => exact Or.inl (List.mem_singleton.mp h)
  | @code c mark hmark =>
      obtain ⟨tail, heq, htail⟩ := exists_codeTail hmark
      rw [heq] at h
      rcases List.mem_cons.mp h with rfl | h
      · exact Or.inr (Or.inl rfl)
      · exact Or.inr (Or.inr (htail d h))

/-- A character that is no backslash, letter or digit is written only for itself. -/
theorem notMem_escaped {c d : Char} (hne : d ≠ c) (hbackslash : d ≠ '\\')
    (halphanum : d.isAlphanum = false) : d ∉ escaped '"' c := by
  intro hmem
  rcases mem_escaped hmem with heq | heq | heq
  · exact hne heq
  · exact hbackslash heq
  · rw [halphanum] at heq
    cases heq

/-- Everything that is written is shown as it is. -/
theorem isPrintable_of_mem_body {s : List Char} {c : Char} (h : c ∈ body s) : isPrintable c = true := by
  have hbackslash : isPrintable '\\' = true := by decide
  obtain ⟨d, -, hc⟩ := List.mem_flatMap.mp h
  have hform := form_escaped d
  generalize escaped '"' d = w at hform hc
  cases hform with
  | backslash =>
      obtain rfl : c = '\\' := by simpa using hc
      exact hbackslash
  | @letter d l h hl =>
      simp only [List.mem_cons, List.not_mem_nil, or_false] at hc
      rcases hc with rfl | rfl
      · exact hbackslash
      · exact (shortLetter_spec hl).2.2.2.2.1
  | plain hprintable =>
      rw [List.mem_singleton.mp hc]
      exact hprintable
  | @code d mark hmark =>
      obtain ⟨tail, heq, htail⟩ := exists_codeTail hmark
      rw [heq] at hc
      rcases List.mem_cons.mp hc with rfl | hc
      · exact hbackslash
      · exact isPrintable_of_isAlphanum (htail c hc)

/-- The only blank that is shown as it is is the space. -/
theorem eq_space_of_isPrintable {c : Char} (hblank : isBlank c = true) (h : isPrintable c = true) :
    c = ' ' := by
  have hall : ∀ r ∈ blankTable, ∀ k < r.2 + 1 - r.1, r.1 + k ≠ 32 →
      Table.unprintable.covers (r.1 + k) = true := by
    decide +kernel
  obtain ⟨r, hr, hlow, hhigh⟩ := RangeTable.exists_range_of_covers hblank
  by_contra hne
  have hspace : c.toNat ≠ 32 := fun heq => hne (Char.toNat_inj.mp heq)
  have hsum : r.1 + (c.toNat - r.1) = c.toNat := by omega
  have hcovers := hall r hr (c.toNat - r.1) (by omega) (by rw [hsum]; exact hspace)
  rw [hsum] at hcovers
  simp [isPrintable, hcovers] at h

theorem notMem_body_of_not_isPrintable {s : List Char} {c : Char} (hc : isPrintable c = false) :
    c ∉ body s := by
  intro hmem
  rw [isPrintable_of_mem_body hmem] at hc
  cases hc

/-! ### Backslashes in front of quotes -/

theorem isOddRun_backslash (s : List Char) : isOddRun ('\\' :: s) = !isOddRun s := by
  simp only [isOddRun, decide_true, List.takeWhile_cons_of_pos, List.length_cons]
  rcases Nat.mod_two_eq_zero_or_one (s.takeWhile (· = '\\')).length with h | h <;>
    simp [Nat.add_mod, h]

theorem isOddRun_of_ne {c : Char} (hc : c ≠ '\\') (s : List Char) : isOddRun (c :: s) = false := by
  simp [isOddRun, hc]

theorem endsInOddRun_concat (s : List Char) (c : Char) :
    endsInOddRun (s ++ [c]) = (c == '\\' && !endsInOddRun s) := by
  by_cases hc : c = '\\'
  · subst hc
    simp [endsInOddRun, isOddRun_backslash]
  · simp [endsInOddRun, isOddRun_of_ne hc, hc]

/-- In front of what follows a whole word, nothing counts. -/
theorem endsInOddRun_append {w : List Char} (hw : endsInOddRun w = false) (s : List Char) :
    endsInOddRun (w ++ s) = endsInOddRun s := by
  induction s using List.reverseRecOn with
  | nil => simpa [endsInOddRun, isOddRun] using hw
  | append_singleton s c ih =>
      rw [← List.append_assoc, endsInOddRun_concat, endsInOddRun_concat, ih]

theorem endsInOddRun_of_notMem {s : List Char} (h : '\\' ∉ s) : endsInOddRun s = false := by
  induction s using List.reverseRecOn with
  | nil => rfl
  | append_singleton s c ih =>
      have hc : c ≠ '\\' := by
        rintro rfl
        exact h (by simp)
      simp [endsInOddRun_concat, hc]

theorem endsInOddRun_append_of_notMem (w : List Char) {s : List Char} (h : '\\' ∉ s) (hne : s ≠ []) :
    endsInOddRun (w ++ s) = false := by
  have hlast : s.getLast hne ≠ '\\' := fun heq => h (heq ▸ List.getLast_mem hne)
  rw [← List.dropLast_append_getLast hne, ← List.append_assoc, endsInOddRun_concat]
  simp [hlast]

theorem endsInOddRun_escaped (c : Char) : endsInOddRun (escaped '"' c) = false := by
  have hform := form_escaped c
  generalize escaped '"' c = w at hform
  cases hform with
  | backslash => rfl
  | @letter c l h hl =>
      refine endsInOddRun_append_of_notMem ['\\'] (s := [l]) ?_ nofun
      simpa using Ne.symm (shortLetter_spec hl).1
  | plain hprintable hbackslash => exact endsInOddRun_of_notMem (by simpa using Ne.symm hbackslash)
  | @code c mark hmark =>
      obtain ⟨tail, heq, htail⟩ := exists_codeTail hmark
      rw [heq]
      exact endsInOddRun_append_of_notMem ['\\'] (notMem_of_isAlphanum htail rfl) nofun

/-- No backslash at the end of a text escapes the quote behind it. -/
theorem endsInOddRun_body (s : List Char) : endsInOddRun (body s) = false := by
  induction s with
  | nil => rfl
  | cons c s ih =>
      show endsInOddRun (escaped '"' c ++ body s) = false
      rw [endsInOddRun_append (endsInOddRun_escaped c), ih]

/-- A quote in what a character is written as is the second of two characters. -/
theorem eq_of_escaped_eq {c : Char} {p q : List Char} (h : escaped '"' c = p ++ '"' :: q) :
    p = ['\\'] := by
  have hmem : '"' ∈ escaped '"' c := by simp [h]
  have hform := form_escaped c
  generalize escaped '"' c = w at hform h hmem
  cases hform with
  | backslash => simp at hmem
  | @letter c l hl =>
      cases p with
      | nil => simp at h
      | cons a p =>
          simp only [List.cons_append, List.cons.injEq] at h
          obtain ⟨rfl, h⟩ := h
          cases p with
          | nil => rfl
          | cons b p => simp at h
  | plain hprintable hbackslash hquote => exact absurd (List.mem_singleton.mp hmem).symm hquote
  | @code c mark hmark =>
      obtain ⟨tail, heq, htail⟩ := exists_codeTail hmark
      rw [heq] at hmem
      rcases List.mem_cons.mp hmem with hmem | hmem
      · exact absurd hmem (by decide)
      · exact absurd hmem (notMem_of_isAlphanum htail rfl)

/-- **Every quote inside of a text is escaped**: an odd number of backslashes stands in front of it. -/
theorem endsInOddRun_before_quote {s p q : List Char} (h : body s = p ++ '"' :: q) :
    endsInOddRun p = true := by
  induction s generalizing p with
  | nil =>
      have hlength := congrArg List.length h
      simp [body] at hlength
  | cons c s ih =>
      have h : escaped '"' c ++ body s = p ++ '"' :: q := h
      rcases List.append_eq_append_iff.mp h with ⟨p', hp, hbody⟩ | ⟨q', hword, hq⟩
      · rw [hp, endsInOddRun_append (endsInOddRun_escaped c)]
        exact ih hbody
      · cases q' with
        | nil =>
            -- The quote is the first character behind the word, and no word begins with one.
            have hempty := ih (p := []) (by simpa using hq.symm)
            simp [endsInOddRun, isOddRun] at hempty
        | cons d q' =>
            simp only [List.cons_append, List.cons.injEq] at hq
            rw [← hq.1] at hword
            rw [eq_of_escaped_eq hword]
            rfl

theorem head?_body_ne_quote (s : List Char) : (body s).head? ≠ some '"' := by
  intro hhead
  obtain ⟨rest, hrest⟩ := List.head?_eq_some_iff.mp hhead
  have hodd := endsInOddRun_before_quote (p := []) hrest
  simp [endsInOddRun, isOddRun] at hodd

/-! ### Quotes -/

theorem bareSingleQuotes_append {w rest : List Char} (hw : '\'' ∉ w) (hrest : rest.head? ≠ some '\'') :
    bareSingleQuotes (w ++ rest) = w ++ bareSingleQuotes rest := by
  induction w with
  | nil => rfl
  | cons c w ih =>
      simp only [List.mem_cons, not_or] at hw
      have hhead : (w ++ rest).head? ≠ some '\'' := by
        cases w with
        | nil => exact hrest
        | cons d w =>
            intro heq
            exact hw.2 (by rw [← Option.some.inj heq]; simp)
      rw [List.cons_append, bareSingleQuotes, ih hw.2, List.cons_append]
      intro rest' _ heq
      exact hhead (by rw [heq]; rfl)

theorem escaped_single {c : Char} (hsingle : c ≠ '\'') (hdouble : c ≠ '"') :
    escaped '\'' c = escaped '"' c := by
  simp [escaped, hsingle, hdouble]

/-- Between single quotes a word is another one only for the quotes. -/
theorem notMem_escaped_single {c : Char} (hc : c ≠ '\'') : '\'' ∉ escaped '\'' c := by
  by_cases hdouble : c = '"'
  · subst hdouble
    decide
  · rw [escaped_single hc hdouble]
    exact notMem_escaped (Ne.symm hc) (by decide) (by decide)

theorem escaped_ne_nil (quote c : Char) : escaped quote c ≠ [] := by
  unfold escaped codeEscape
  dsimp only
  repeat' split
  all_goals simp

theorem head?_escaped_single (c : Char) (rest : List Char) :
    (escaped '\'' c ++ rest).head? ≠ some '\'' := by
  by_cases hc : c = '\''
  · subst hc
    exact nofun
  · intro hhead
    have hword := notMem_escaped_single hc
    obtain ⟨d, w, hw⟩ := List.exists_cons_of_ne_nil (escaped_ne_nil '\'' c)
    rw [hw] at hhead hword
    exact hword (by rw [← Option.some.inj hhead]; simp)

/-- Of a text between single quotes, only the escapes of the single quotes are taken away. -/
theorem bareSingleQuotes_flatMap (s : List Char) : bareSingleQuotes (s.flatMap (escaped '\''))
    = s.flatMap fun c => if c = '\'' then ['\''] else escaped '\'' c := by
  induction s with
  | nil => rfl
  | cons c s ih =>
      by_cases hc : c = '\''
      · subst hc
        have hword : escaped '\'' '\'' = ['\\', '\''] := rfl
        rw [List.flatMap_cons, hword, List.cons_append, List.cons_append, List.nil_append,
          bareSingleQuotes, ih]
        simp
      · have hrest : (s.flatMap (escaped '\'')).head? ≠ some '\'' := by
          cases s with
          | nil => exact nofun
          | cons d s => exact head?_escaped_single d _
        rw [List.flatMap_cons, bareSingleQuotes_append (notMem_escaped_single hc) hrest, ih]
        simp [hc]

/-- **However a text is quoted**, between double quotes it is the same in the end. -/
theorem betweenDoubleQuotes_eq_body (s : List Char) : betweenDoubleQuotes s = body s := by
  unfold betweenDoubleQuotes
  by_cases hquote : quoteFor s = '\''
  · dsimp only
    rw [if_pos hquote, hquote, bareSingleQuotes_flatMap, List.flatMap_assoc]
    refine List.flatMap_congr fun c _ => ?_
    by_cases hsingle : c = '\''
    · subst hsingle
      decide
    by_cases hdouble : c = '"'
    · subst hdouble
      decide
    have hnone : '"' ∉ escaped '"' c := notMem_escaped (Ne.symm hdouble) (by decide) (by decide)
    rw [if_neg hsingle, escaped_single hsingle hdouble]
    calc (escaped '"' c).flatMap (fun d => if d = '"' then ['\\', '"'] else [d])
        = (escaped '"' c).flatMap fun d => [d] :=
          List.flatMap_congr fun d hd => if_neg (ne_of_mem_of_not_mem hd hnone)
      _ = escaped '"' c := List.flatMap_singleton' _
  · have hdouble : quoteFor s = '"' := by
      unfold quoteFor at hquote ⊢
      split at hquote
      · rename_i h
        rw [if_pos h]
      · exact absurd rfl hquote
    dsimp only
    rw [if_neg hquote, hdouble]
    rfl

/-! ### Texts that are read back -/

/-- Whether no backslash with a mark stands behind a character that is written by a number with that mark. -/
def codesLast (mark : Char) : List Char → Bool
  | [] => true
  | c :: rest => if codeMark? c = some mark then !hasPair '\\' mark rest else codesLast mark rest

/-- Texts that are read back as what they are. -/
structure IsReadable (s : List Char) : Prop where
  /-- No character needs a short number, which the format does not have. -/
  noShort : ∀ c ∈ s, codeMark? c ≠ some 'x'
  /-- Nothing looks like a short number. -/
  noPair : hasPair '\\' 'x' s = false
  /-- The quotes of the text and those at its beginning are not taken for three. -/
  quotes : s ≠ ['"'] ∧ ¬ ['"', '"'] <+: s
  /-- What looks like a number comes before the first real one. -/
  codes : ∀ mark ∈ ['u', 'U'], codesLast mark s = true

instance (s : List Char) : Decidable (IsReadable s) :=
  decidable_of_iff ((s.all fun c => codeMark? c ≠ some 'x') = true ∧ hasPair '\\' 'x' s = false
      ∧ (s ≠ ['"'] ∧ ¬ ['"', '"'] <+: s) ∧ ['u', 'U'].all (codesLast · s) = true)
    ⟨fun ⟨noShort, noPair, quotes, codes⟩ =>
        ⟨by simpa using noShort, noPair, quotes, List.all_eq_true.mp codes⟩,
      fun ⟨noShort, noPair, quotes, codes⟩ =>
        ⟨by simpa using noShort, noPair, quotes, List.all_eq_true.mpr codes⟩⟩

theorem hasPair_cons (a b c : Char) (s : List Char) :
    hasPair a b (c :: s) = ((c == a && s.head? == some b) || hasPair a b s) := by
  cases s with
  | nil => simp [hasPair]
  | cons d s =>
      simp only [hasPair, List.drop_succ_cons, List.drop_zero, List.zip_cons_cons, List.contains_cons,
        List.head?_cons]
      congr 1
      rw [Bool.eq_iff_iff]
      simp only [Bool.and_eq_true, beq_iff_eq, Prod.mk.injEq, Option.some.injEq]
      exact ⟨fun h => ⟨h.1.symm, h.2.symm⟩, fun h => ⟨h.1.symm, h.2.symm⟩⟩

theorem hasPair_append_of_notMem {a b : Char} {w : List Char} (hw : a ∉ w) (s : List Char) :
    hasPair a b (w ++ s) = hasPair a b s := by
  induction w with
  | nil => rfl
  | cons c w ih =>
      simp only [List.mem_cons, not_or] at hw
      rw [List.cons_append, hasPair_cons, ih hw.2, beq_eq_false_iff_ne.mpr (Ne.symm hw.1)]
      rfl

theorem splitOnPair_of_not_hasPair {a b : Char} {s : List Char} (h : hasPair a b s = false) :
    splitOnPair a b s = [s] := by
  induction s with
  | nil => rfl
  | cons c s ih =>
      rw [hasPair_cons, Bool.or_eq_false_iff] at h
      cases s with
      | nil => rfl
      | cons d s =>
          have hne : ¬ (c = a ∧ d = b) := by simpa using h.1
          rw [splitOnPair, if_neg hne, ih h.2]

theorem splitOnPair_ne_nil (a b : Char) (s : List Char) : splitOnPair a b s ≠ [] := by
  fun_induction splitOnPair a b s <;> simp_all

theorem splitOnPair_cons {a b c : Char} {s : List Char} (h : ¬ (c = a ∧ s.head? = some b)) :
    ∃ piece more, splitOnPair a b s = piece :: more
      ∧ splitOnPair a b (c :: s) = (c :: piece) :: more := by
  cases s with
  | nil => exact ⟨[], [], rfl, rfl⟩
  | cons d s =>
      obtain ⟨piece, more, hs⟩ := List.exists_cons_of_ne_nil (splitOnPair_ne_nil a b (d :: s))
      have hne : ¬ (c = a ∧ d = b) := by simpa using h
      refine ⟨piece, more, hs, ?_⟩
      rw [splitOnPair, if_neg hne, hs]

/-- Only a letter that stands in the text stands first in what is written. -/
theorem head?_body {s : List Char} {c : Char} (hc : c ≠ '\\') (h : (body s).head? = some c) :
    s.head? = some c := by
  cases s with
  | nil => exact absurd h nofun
  | cons d s =>
      have hhead : (escaped '"' d ++ body s).head? = some c := h
      have hform := form_escaped d
      generalize escaped '"' d = w at hform hhead
      cases hform with
      | backslash => exact absurd (Option.some.inj hhead).symm hc
      | letter => exact absurd (Option.some.inj hhead).symm hc
      | plain => exact hhead
      | @code d mark hmark =>
          obtain ⟨-, width, -, -, heq⟩ := codeEscape_of_codeMark? hmark
          rw [heq] at hhead
          exact absurd (Option.some.inj hhead).symm hc

/-- What is written of a text looks like a short number only where the text does. -/
theorem hasPair_body {s : List Char} (hshort : ∀ c ∈ s, codeMark? c ≠ some 'x')
    (h : hasPair '\\' 'x' s = false) : hasPair '\\' 'x' (body s) = false := by
  induction s with
  | nil => rfl
  | cons c s ih =>
      obtain ⟨hc, hshort⟩ := List.forall_mem_cons.mp hshort
      rw [hasPair_cons, Bool.or_eq_false_iff] at h
      have hrest := ih hshort h.2
      have hbody : body (c :: s) = escaped '"' c ++ body s := rfl
      rw [hbody]
      have hform := form_escaped c
      generalize escaped '"' c = w at hform
      cases hform with
      | backslash =>
          have hhead : (body s).head? ≠ some 'x' := by
            intro heq
            have hs : s.head? = some 'x' := head?_body (by decide) heq
            simp [hs] at h
          rw [List.cons_append, List.cons_append, List.nil_append, hasPair_cons, hasPair_cons, hrest]
          simp [hhead]
      | @letter c l hletter hl =>
          obtain ⟨hbackslash, hmark, -⟩ := shortLetter_spec hl
          rw [List.cons_append, List.cons_append, List.nil_append, hasPair_cons, hasPair_cons, hrest]
          simp [hmark, hbackslash]
      | plain hprintable hbackslash =>
          rw [hasPair_append_of_notMem (by simpa using Ne.symm hbackslash), hrest]
      | @code c mark hmark =>
          obtain ⟨tail, heq, htail⟩ := exists_codeTail hmark
          have hx : mark ≠ 'x' := fun hx => hc (hx ▸ hmark)
          rw [heq, List.cons_append, hasPair_cons,
            hasPair_append_of_notMem (notMem_of_isAlphanum htail rfl), hrest]
          simp [hx]

/-- A text that is read back is written as it stands between its quotes. -/
theorem text?_of_isReadable {s : String} (h : IsReadable s.toList) :
    text? s = some (String.ofList ('"' :: body s.toList ++ ['"'])) := by
  unfold text?
  rw [betweenDoubleQuotes_eq_body, splitOnPair_of_not_hasPair (hasPair_body h.noShort h.noPair)]
  rfl

end ApiClientGen.Toml
