/-
Names in small letters, and the identifiers made from them.

A name in small letters consists of words with low lines between them, where a word is made of
small ASCII letters and digits and is not empty.  The words of such a name are these words, so
that spelling it once more changes nothing.  It never begins or ends with a low line.  An
identifier adds a low line in front or behind where the name alone would not do, and so the
name can be read off its identifier again: different names have different identifiers.
-/
import ApiClientGen.Proofs.Naming.ModelNames
import ApiClientGen.Text.Layout

namespace ApiClientGen.Naming

open ApiClientGen.Text

/-! ### Words in small letters -/

/-- Whether a character is a small ASCII letter or a digit. -/
def isSmallChar (c : Char) : Bool := c.isLower || c.isDigit

/-- A word in small letters, which is not empty. -/
def IsSmallWord (w : List Char) : Prop := w ≠ [] ∧ ∀ c ∈ w, isSmallChar c = true

theorem isAlphanum_of_isSmallChar {c : Char} (h : isSmallChar c = true) : c.isAlphanum = true := by
  simp only [isSmallChar, Bool.or_eq_true] at h
  rcases h with hlower | hdigit
  · simp [Char.isAlphanum, Char.isAlpha, hlower]
  · exact isAlphanum_of_isDigit hdigit

theorem isUpper_eq_false_of_isSmallChar {c : Char} (h : isSmallChar c = true) :
    c.isUpper = false := by
  simp only [isSmallChar, Char.isLower, Char.isDigit, Char.isUpper, ge_iff_le,
    UInt32.le_iff_toNat_le, Bool.or_eq_true, Bool.and_eq_true, decide_eq_true_eq] at h ⊢
  simp at h ⊢
  omega

theorem isSmallChar_toLower {c : Char} (h : c.isAlphanum = true) :
    isSmallChar c.toLower = true := by
  have halnum := isAlphanum_toLower h
  unfold Char.toLower at halnum ⊢
  simp only [isSmallChar, Char.isAlphanum, Char.isAlpha, Bool.or_eq_true] at halnum ⊢
  rcases halnum with (hupper | hlower) | hdigit
  · -- A capital letter would have been made small.
    exfalso
    split at hupper
    · rename_i hcapital
      simp only [Char.isUpper, ge_iff_le, UInt32.le_iff_toNat_le, UInt32.toNat_add,
        decide_eq_true_eq] at hcapital hupper
      simp at hcapital hupper
      omega
    · rename_i hother
      exact hother (by simpa [Char.isUpper] using hupper)
  · exact Or.inl hlower
  · exact Or.inr hdigit

theorem isSmallWord_small {s w : List Char} (hw : w ∈ words s) : IsSmallWord (small w) := by
  refine ⟨by simpa [small] using ne_nil_of_mem_words w hw, fun c hc => ?_⟩
  obtain ⟨d, hd, rfl⟩ := List.mem_map.mp hc
  exact isSmallChar_toLower (isAlphanum_of_mem_words hw hd)

/-- A word in small letters stays in one piece, up to what does not belong to words. -/
theorem words_append {w rest : List Char} (hw : IsSmallWord w)
    (hrest : ∀ c ∈ rest.head?, isWordChar c = false) : words (w ++ rest) = w :: words rest := by
  obtain ⟨hne, hsmall⟩ := hw
  induction w with
  | nil => exact absurd rfl hne
  | cons c w ih =>
      have hc : isWordChar c = true := isAlphanum_of_isSmallChar (hsmall c (by simp))
      cases w with
      | nil =>
          cases rest with
          | nil => simp [words, hc]
          | cons d rest => simp [words, hc, hrest d (by simp)]
      | cons d w =>
          have hd := hsmall d (by simp)
          have hstarts : ∀ after, startsWord c d after = false := by
            simp [startsWord, isUpper_eq_false_of_isSmallChar hd]
          have hdWord : isWordChar d = true := isAlphanum_of_isSmallChar hd
          have hwords := ih (by simp) fun x hx => hsmall x (List.mem_cons_of_mem _ hx)
          rw [List.cons_append] at hwords
          simp [words.eq_2 c, hc, hdWord, hstarts, hwords, consFirst]

/-- The words of a name in small letters come first, if what follows does not go on with a word. -/
theorem words_intercalate_append {ws : List (List Char)} (h : ∀ w ∈ ws, IsSmallWord w)
    {rest : List Char} (hrest : ∀ c ∈ rest.head?, isWordChar c = false) :
    words (List.intercalate ['_'] ws ++ rest) = ws ++ words rest := by
  induction ws with
  | nil => rfl
  | cons w ws ih =>
      obtain ⟨hw, hws⟩ := List.forall_mem_cons.mp h
      cases ws with
      | nil => rw [List.intercalate_singleton, words_append hw hrest, List.singleton_append]
      | cons v ws =>
          have hline : isWordChar '_' = false := by decide
          rw [List.intercalate_cons_cons, List.append_assoc, List.append_assoc, List.singleton_append,
            words_append hw (by simp [hline]), words.eq_2, if_neg (by simp [hline]), ih hws]
          rfl

/-- **The words of a name in small letters** are those that it was put together from. -/
theorem words_intercalate {ws : List (List Char)} (h : ∀ w ∈ ws, IsSmallWord w) :
    words (List.intercalate ['_'] ws) = ws := by
  have hwords : words (List.intercalate ['_'] ws ++ []) = ws ++ words [] :=
    words_intercalate_append h fun _ hc => nomatch hc
  rwa [List.append_nil, words, List.append_nil] at hwords

/-! ### Names in small letters -/

/-- A name in small letters: words with low lines between them, at least one. -/
def IsSnakeName (name : String) : Prop :=
  ∃ ws : List (List Char), ws ≠ [] ∧ (∀ w ∈ ws, IsSmallWord w)
    ∧ name.toList = List.intercalate ['_'] ws

theorem small_eq_self {w : List Char} (h : IsSmallWord w) : small w = w := by
  refine (List.map_congr_left fun c hc => ?_).trans (List.map_id w)
  have hupper := isUpper_eq_false_of_isSmallChar (h.2 c hc)
  unfold Char.toLower
  rw [dif_neg (by simpa [Char.isUpper] using hupper)]
  rfl

/-- Spelling a name in small letters once more changes nothing. -/
theorem IsSnakeName.snakeCase_eq {name : String} (h : IsSnakeName name) : snakeCase name = name := by
  obtain ⟨ws, -, hws, hlist⟩ := h
  have hsmall : ws.map small = ws :=
    (List.map_congr_left fun w hw => small_eq_self (hws w hw)).trans (List.map_id ws)
  rw [snakeCase, hlist, words_intercalate hws, hsmall, ← hlist, String.ofList_toList]

/-- A name is spelled in small letters, if anything of it is left. -/
theorem isSnakeName_snakeCase {name : String} (h : snakeCase name ≠ "") :
    IsSnakeName (snakeCase name) := by
  refine ⟨(words name.toList).map small, ?_, ?_, by simp [snakeCase]⟩
  · intro hnil
    exact h (by simp [snakeCase, hnil, List.intercalate])
  · intro w hw
    obtain ⟨v, hv, rfl⟩ := List.mem_map.mp hw
    exact isSmallWord_small hv

/-- Two names in small letters with a low line between them are one. -/
theorem IsSnakeName.joined {a b : String} (ha : IsSnakeName a) (hb : IsSnakeName b) :
    IsSnakeName (a ++ "_" ++ b) := by
  obtain ⟨ws, hne, hws, ha⟩ := ha
  obtain ⟨vs, hvs, hsmall, hb⟩ := hb
  refine ⟨ws ++ vs, by simp [hne], List.forall_mem_append.mpr ⟨hws, hsmall⟩, ?_⟩
  rw [String.toList_append, String.toList_append, ha, hb]
  clear ha hb hws
  induction ws with
  | nil => exact absurd rfl hne
  | cons w ws ih =>
      cases ws with
      | nil =>
          obtain ⟨v, more, rfl⟩ := List.exists_cons_of_ne_nil hvs
          simp [List.intercalate_cons_cons]
      | cons v ws =>
          have hrest := ih (by simp)
          simp only [List.cons_append, List.intercalate_cons_cons, List.append_assoc] at hrest ⊢
          rw [hrest]

/-- A number behind a low line makes one more word. -/
theorem IsSnakeName.numbered {name : String} (h : IsSnakeName name) (n : Nat) :
    IsSnakeName (name ++ "_" ++ toString n) := by
  have hdigits : IsSmallWord (Nat.toDigits 10 n) := by
    refine ⟨Nat.toDigits_ne_nil, fun c hc => ?_⟩
    simp [isSmallChar, Nat.isDigit_of_mem_toDigits (by decide) (by decide) hc]
  refine h.joined ⟨[Nat.toDigits 10 n], by simp, by simpa using hdigits, ?_⟩
  rw [List.intercalate_singleton]
  exact Nat.toList_repr

/-- A name in small letters begins and ends with a small letter or a digit. -/
theorem IsSnakeName.ends {name : String} (h : IsSnakeName name) :
    ∃ first last, name.toList.head? = some first ∧ name.toList.getLast? = some last
      ∧ isSmallChar first = true ∧ isSmallChar last = true := by
  obtain ⟨ws, hne, hws, hlist⟩ := h
  rw [hlist]
  clear hlist
  induction ws with
  | nil => exact absurd rfl hne
  | cons w ws ih =>
      obtain ⟨hnil, hsmall⟩ := hws w (by simp)
      obtain ⟨c, hc⟩ := Option.isSome_iff_exists.mp (List.isSome_head?.mpr hnil)
      obtain ⟨d, hd⟩ : ∃ d, w.getLast? = some d := ⟨_, List.getLast?_eq_some_getLast hnil⟩
      have hcSmall := hsmall c (List.mem_of_mem_head? hc)
      cases ws with
      | nil =>
          refine ⟨c, d, ?_, ?_, hcSmall, hsmall d (List.mem_of_mem_getLast? hd)⟩
          · rwa [List.intercalate_singleton]
          · rwa [List.intercalate_singleton]
      | cons v ws =>
          obtain ⟨-, last, -, hlast, -, hlastSmall⟩ :=
            ih (by simp) fun u hu => hws u (List.mem_cons_of_mem _ hu)
          refine ⟨c, last, ?_, ?_, hcSmall, hlastSmall⟩
          · rw [List.intercalate_cons_cons, List.append_assoc, List.head?_append, hc]
            rfl
          · rw [List.intercalate_cons_cons, List.getLast?_append, hlast]
            rfl

theorem IsSnakeName.isSmallChar_or_lowLine {name : String} (h : IsSnakeName name) {c : Char}
    (hc : c ∈ name.toList) : isSmallChar c = true ∨ c = '_' := by
  obtain ⟨ws, -, hws, hlist⟩ := h
  rw [hlist] at hc
  clear hlist
  induction ws with
  | nil => cases hc
  | cons w ws ih =>
      have hw := hws w (by simp)
      cases ws with
      | nil => exact Or.inl (hw.2 c (by rwa [List.intercalate_singleton] at hc))
      | cons v ws =>
          rw [List.intercalate_cons_cons] at hc
          rcases List.mem_append.mp hc with hc | hc
          · rcases List.mem_append.mp hc with hc | hc
            · exact Or.inl (hw.2 c hc)
            · exact Or.inr (List.mem_singleton.mp hc)
          · exact ih hc fun u hu => hws u (List.mem_cons_of_mem _ hu)

/-! ### Low lines around a name -/

/-- No reserved word ends in a low line. -/
theorem isReserved_append_lowLine (name : String) : isReserved (name ++ "_") = false := by
  have hwords : ∀ w ∈ reservedWords, w.toList.getLast? ≠ some '_' := by decide
  by_contra hreserved
  refine hwords (name ++ "_") (List.contains_iff_mem.mp (by simpa [isReserved] using hreserved)) ?_
  simp

/-- A text is a name with low lines around it, one of them in front of a digit. -/
def IsMarked (name text : String) : Prop :=
  ∃ before after, text.toList = before ++ name.toList ++ after ∧ (∀ c ∈ before, c = '_')
    ∧ (∀ c ∈ after, c = '_') ∧ (startsWithDigit name = true → before ≠ [])

theorem IsMarked.followed {name text : String} (h : IsMarked name text) :
    IsMarked name (text ++ "_") := by
  obtain ⟨before, after, hlist, hbefore, hafter, hdigit⟩ := h
  refine ⟨before, after ++ ['_'], by simp [hlist], hbefore, ?_, hdigit⟩
  simpa [or_imp, forall_and] using hafter

theorem dropWhile_lowLines {before s : List Char} {c : Char} (hbefore : ∀ x ∈ before, x = '_')
    (hhead : s.head? = some c) (hc : c ≠ '_') : (before ++ s).dropWhile (· == '_') = s := by
  obtain ⟨rest, rfl⟩ := List.head?_eq_some_iff.mp hhead
  rw [List.dropWhile_append_of_pos (fun x hx => by simpa using hbefore x hx)]
  exact List.dropWhile_cons_of_neg (by simpa using hc)

/-- **A name can be read off** a text with low lines around it. -/
theorem IsMarked.trimBy_eq {name text : String} (hname : IsSnakeName name)
    (h : IsMarked name text) : trimBy (· == '_') text.toList = name.toList := by
  obtain ⟨before, after, hlist, hbefore, hafter, -⟩ := h
  obtain ⟨first, last, hfirst, hlast, hfirstSmall, hlastSmall⟩ := hname.ends
  have hline : ∀ c, isSmallChar c = true → c ≠ '_' := by
    rintro c hc rfl
    exact absurd hc (by decide)
  have hhead : (name.toList ++ after).head? = some first := by
    rw [List.head?_append, hfirst]
    rfl
  have hstart : text.toList.dropWhile (· == '_') = name.toList ++ after := by
    rw [hlist, List.append_assoc, dropWhile_lowLines hbefore hhead (hline first hfirstSmall)]
  have hback : (after.reverse ++ name.toList.reverse).dropWhile (· == '_')
      = name.toList.reverse :=
    dropWhile_lowLines (fun x hx => hafter x (List.mem_reverse.mp hx))
      (by rw [List.head?_reverse, hlast]) (hline last hlastSmall)
  rw [trimBy, hstart, dropEndWhile, List.reverse_append, hback, List.reverse_reverse]

/-- What is neither letter nor digit makes no words. -/
theorem words_gap_append {gap : List Char} (h : ∀ c ∈ gap, isWordChar c = false) (s : List Char) :
    words (gap ++ s) = words s := by
  induction gap with
  | nil => rfl
  | cons c gap ih =>
      obtain ⟨hc, hgap⟩ := List.forall_mem_cons.mp h
      rw [List.cons_append, words.eq_2, if_neg (by simp [hc]), ih hgap]

/-- Low lines make no words. -/
theorem words_lowLines_append {before : List Char} (h : ∀ c ∈ before, c = '_') (s : List Char) :
    words (before ++ s) = words s :=
  words_gap_append (fun c hc => by rw [h c hc]; decide) s

/-- Low lines around a name are lost when it is spelled in small letters. -/
theorem IsMarked.snakeCase_eq {name text : String} (hname : IsSnakeName name)
    (h : IsMarked name text) : snakeCase text = name := by
  obtain ⟨before, after, hlist, hbefore, hafter, -⟩ := h
  obtain ⟨ws, -, hws, hwords⟩ := id hname
  have hrest : ∀ c ∈ after.head?, isWordChar c = false := by
    intro c hc
    rw [hafter c (List.mem_of_mem_head? hc)]
    decide
  have hnone : words after = [] := by
    have hlines := words_lowLines_append hafter []
    rwa [List.append_nil] at hlines
  have hsame : words text.toList = words name.toList := by
    rw [hlist, List.append_assoc, words_lowLines_append hbefore, hwords,
      words_intercalate_append hws hrest, hnone, List.append_nil, words_intercalate hws]
  rw [snakeCase, hsame, ← snakeCase, hname.snakeCase_eq]

/-- Different names are different with low lines around them. -/
theorem IsMarked.inj {a b text : String} (ha : IsSnakeName a) (hb : IsSnakeName b)
    (hmarkA : IsMarked a text) (hmarkB : IsMarked b text) : a = b :=
  String.toList_inj.mp ((hmarkA.trimBy_eq ha).symm.trans (hmarkB.trimBy_eq hb))

theorem IsMarked.isSmallChar_or_lowLine {name text : String} (hname : IsSnakeName name)
    (h : IsMarked name text) {c : Char} (hc : c ∈ text.toList) : isSmallChar c = true ∨ c = '_' := by
  obtain ⟨before, after, hlist, hbefore, hafter, -⟩ := h
  rw [hlist] at hc
  rcases List.mem_append.mp hc with hc | hc
  · rcases List.mem_append.mp hc with hc | hc
    · exact Or.inr (hbefore c hc)
    · exact hname.isSmallChar_or_lowLine hc
  · exact Or.inr (hafter c hc)

/-! ### Identifiers in small letters -/

theorem toNat_lt_of_isSmallChar_or_lowLine {c : Char} (h : isSmallChar c = true ∨ c = '_') :
    c.toNat < 128 := by
  rcases h with hsmall | rfl
  · simp only [isSmallChar, Char.isLower, Char.isDigit, ge_iff_le, UInt32.le_iff_toNat_le,
      Bool.or_eq_true, Bool.and_eq_true, decide_eq_true_eq] at hsmall
    have hval : c.toNat = c.val.toNat := rfl
    simp at hsmall
    omega
  · decide

/-- Small letters, digits and low lines go on with an identifier, and all but digits begin one. -/
theorem covers_identifier {c : Char} (h : isSmallChar c = true ∨ c = '_') :
    Table.identifierContinue.covers c.toNat = true
      ∧ (c.isDigit = false → Table.identifierStart.covers c.toNat = true) := by
  have htable : ∀ n < 128, (isSmallChar (Char.ofNat n) = true ∨ Char.ofNat n = '_') →
      Table.identifierContinue.covers n = true
        ∧ ((Char.ofNat n).isDigit = false → Table.identifierStart.covers n = true) := by
    decide
  have hlt := toNat_lt_of_isSmallChar_or_lowLine h
  have hof : Char.ofNat c.toNat = c := Char.ofNat_toNat c
  have hc := htable c.toNat hlt
  rw [hof] at hc
  exact hc h

theorem IsMarked.isIdentifier_eq {name text : String} (hname : IsSnakeName name)
    (h : IsMarked name text) : isIdentifier text = true := by
  have hchars : ∀ c ∈ text.toList, isSmallChar c = true ∨ c = '_' :=
    fun c hc => h.isSmallChar_or_lowLine hname hc
  obtain ⟨before, after, hlist, hbefore, -, hdigit⟩ := h
  obtain ⟨first, -, hfirst, -⟩ := hname.ends
  -- The first character is a low line, or the first of a name that does not begin with a digit.
  have hstart : ∃ c rest, text.toList = c :: rest ∧ c.isDigit = false := by
    cases before with
    | cons c before =>
        refine ⟨c, before ++ name.toList ++ after, hlist, ?_⟩
        rw [hbefore c (by simp)]
        rfl
    | nil =>
        obtain ⟨rest, hname⟩ := List.head?_eq_some_iff.mp hfirst
        refine ⟨first, rest ++ after, by simp [hlist, hname], ?_⟩
        have hnone : startsWithDigit name = false := by
          by_contra hstarts
          exact hdigit (by simpa using hstarts) rfl
        simpa [startsWithDigit, hname] using hnone
  obtain ⟨c, rest, htext, hc⟩ := hstart
  rw [htext] at hchars
  rw [isIdentifier, htext, isIdentifierChars, Bool.and_eq_true, List.all_eq_true]
  exact ⟨(covers_identifier (hchars c (by simp))).2 hc,
    fun d hd => (covers_identifier (hchars d (List.mem_cons_of_mem _ hd))).1⟩

/-- An identifier is a name, lettered if it begins with a digit, and followed if it is taken. -/
theorem identifier_cases (name : String) :
    ∃ named lettered, (named = "field" ∨ IsSnakeName named)
      ∧ (snakeCase name ≠ "" → named = snakeCase name)
      ∧ lettered = (if startsWithDigit named then "_" ++ named else named)
      ∧ ((identifier name = lettered ++ "_"
          ∧ (isReserved lettered = true ∨ lettered = "self" ∨ lettered = "client"))
        ∨ (identifier name = lettered ∧ isReserved lettered = false ∧ lettered ≠ "self"
          ∧ lettered ≠ "client")) := by
  have hnamed : (if snakeCase name = "" then "field" else snakeCase name) = "field"
      ∨ IsSnakeName (if snakeCase name = "" then "field" else snakeCase name) := by
    split
    · exact Or.inl rfl
    · rename_i hne
      exact Or.inr (isSnakeName_snakeCase hne)
  refine ⟨if snakeCase name = "" then "field" else snakeCase name, _, hnamed, fun h => if_neg h,
    rfl, ?_⟩
  unfold identifier
  dsimp only
  generalize (if snakeCase name = "" then "field" else snakeCase name) = named
  generalize (if startsWithDigit named = true then "_" ++ named else named) = lettered
  split
  · rename_i htaken
    simp only [Bool.or_eq_true, beq_iff_eq, or_assoc] at htaken
    exact Or.inl ⟨rfl, htaken⟩
  · rename_i hfree
    simp only [Bool.or_eq_true, beq_iff_eq, not_or, Bool.not_eq_true] at hfree
    exact Or.inr ⟨rfl, hfree.1.1, hfree.1.2, hfree.2⟩

/-- The identifier for a name in small letters is the name with low lines around it. -/
theorem isMarked_identifier {name : String} (h : IsSnakeName name) :
    IsMarked name (identifier name) := by
  obtain ⟨named, lettered, -, hnamed, hlettered, hcases⟩ := identifier_cases name
  have hne : snakeCase name ≠ "" := by
    obtain ⟨first, -, hfirst, -⟩ := h.ends
    rw [h.snakeCase_eq]
    rintro rfl
    simp at hfirst
  obtain rfl : named = name := (hnamed hne).trans h.snakeCase_eq
  have hmarked : IsMarked named lettered := by
    rw [hlettered]
    split
    · exact ⟨['_'], [], by simp, by simp, by simp, by simp⟩
    · rename_i hletter
      exact ⟨[], [], by simp, by simp, by simp, fun hdigit => absurd hdigit hletter⟩
  rcases hcases with ⟨heq, -⟩ | ⟨heq, -⟩
  · rw [heq]
    exact hmarked.followed
  · rw [heq]
    exact hmarked

/-- No identifier is a reserved word. -/
theorem isReserved_identifier (name : String) : isReserved (identifier name) = false := by
  obtain ⟨named, lettered, -, -, -, ⟨heq, -⟩ | ⟨heq, hfree, -⟩⟩ := identifier_cases name
  · rw [heq]
    exact isReserved_append_lowLine lettered
  · rw [heq]
    exact hfree

/-- No identifier is `self`. -/
theorem identifier_ne_self (name : String) : identifier name ≠ "self" := by
  intro hself
  obtain ⟨named, lettered, -, -, -, ⟨heq, -⟩ | ⟨heq, -, hne, -⟩⟩ := identifier_cases name
  · have hlast := congrArg (fun s : String => s.toList.getLast?) (heq.symm.trans hself)
    simp at hlast
  · exact hne (heq.symm.trans hself)

/-- An identifier ends in a letter or a digit, unless it would be taken otherwise. -/
theorem identifier_last (name : String) :
    (∃ last, (identifier name).toList.getLast? = some last ∧ isSmallChar last = true)
      ∨ ∃ text, identifier name = text ++ "_"
        ∧ (isReserved text = true ∨ text = "self" ∨ text = "client") := by
  obtain ⟨named, lettered, hnamed, -, hlettered, ⟨heq, htaken⟩ | ⟨heq, -⟩⟩ := identifier_cases name
  · exact Or.inr ⟨lettered, heq, htaken⟩
  · obtain ⟨last, hlast, hsmall⟩ :
        ∃ last, named.toList.getLast? = some last ∧ isSmallChar last = true := by
      rcases hnamed with rfl | hsnake
      · exact ⟨'d', by decide, by decide⟩
      · obtain ⟨-, last, -, hlast, -, hsmall⟩ := hsnake.ends
        exact ⟨last, hlast, hsmall⟩
    refine Or.inl ⟨last, ?_, hsmall⟩
    rw [heq, hlettered]
    split
    · rw [String.toList_append, List.getLast?_append, hlast]
      rfl
    · exact hlast

end ApiClientGen.Naming
