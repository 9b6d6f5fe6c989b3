/-
Characters that are written by their numbers.

A character that cannot be shown as it is stands in a literal by its number: a letter that tells how
many digits follow, and the number in hexadecimal digits with zeros in front.  Everything that is
written in this way is a letter or a digit.
-/
import Mathlib.Algebra.Order.Ring.Nat
import ApiClientGen.Proofs.Number.Words
import ApiClientGen.Text.Layout

namespace ApiClientGen.Text

open ApiClientGen.Number

/-- The letter in front of the number of a character, if it is written by its number. -/
def codeMark? (c : Char) : Option Char :=
  if c = '\n' ∨ c = '\r' ∨ c = '\t' ∨ isPrintable c then none
  else if c.toNat < 0x100 then some 'x'
  else if c.toNat < 0x10000 then some 'u'
  else some 'U'

/-- The letters in front of numbers, with the lengths of these. -/
def codeMarks : List (Char × Nat) := [('x', 2), ('u', 4), ('U', 8)]

/-! ### Numbers in hexadecimal digits -/

/-- A number is written in as many digits as asked for, if they are enough. -/
theorem exists_hexDigits {width n : Nat} (hpos : 0 < width) (h : n < 16 ^ width) :
    ∃ ds : List Nat, hexDigits width n = ds.map Nat.digitChar ∧ ds.length = width
      ∧ (∀ d ∈ ds, d < 16) ∧ ofDigits 16 ds = n := by
  -- The last digit is what is left of the number, and the digits in front of it are those of the rest.
  induction width, hpos using Nat.le_induction generalizing n with
  | base =>
      have hn : n < 16 := by simpa using h
      exact ⟨[n], by simp [hexDigits, Nat.toDigits_of_lt_base hn], rfl, by simpa using hn, by
        simp [ofDigits]⟩
  | succ width hwidth ih =>
      have hrest : n / 16 < 16 ^ width := by
        rw [Nat.pow_succ] at h
        omega
      obtain ⟨ds, hds, hlength, hsmall, hnumber⟩ := ih hrest
      refine ⟨ds ++ [n % 16], ?_, by simp [hlength], ?_, ?_⟩
      · rw [List.map_append, ← hds]
        by_cases hn : n < 16
        · have hzero : n / 16 = 0 := by omega
          have hlast : n % 16 = n := by omega
          have hfill : List.replicate (width + 1 - 1) '0' = List.replicate (width - 1) '0' ++ ['0'] := by
            rw [← List.replicate_succ']
            congr 1
            omega
          simp only [hexDigits, Nat.toDigits_of_lt_base hn, hzero, hlast, List.length_singleton, hfill]
          rfl
        · have hdigits : Nat.toDigits 16 n = Nat.toDigits 16 (n / 16) ++ [Nat.digitChar (n % 16)] := by
            rw [Nat.toDigits_eq_if (by decide), if_neg hn]
          simp only [hexDigits, hdigits, List.length_append, List.length_singleton,
            Nat.add_sub_add_right, List.map_cons, List.map_nil, List.append_assoc]
      · intro d hd
        rcases List.mem_append.mp hd with hd | hd
        · exact hsmall d hd
        · rw [List.mem_singleton.mp hd]
          exact Nat.mod_lt n (by decide)
      · rw [ofDigits, List.foldl_append]
        rw [ofDigits] at hnumber
        rw [hnumber]
        simp only [List.foldl_cons, List.foldl_nil]
        omega

/-- What holds of sixteen digits holds of every one in a number. -/
theorem forall_mem_hexDigits {P : Char → Prop} (hP : ∀ d < 16, P (Nat.digitChar d)) {width n : Nat}
    (hpos : 0 < width) (h : n < 16 ^ width) : ∀ c ∈ hexDigits width n, P c := by
  obtain ⟨ds, hds, -, hsmall, -⟩ := exists_hexDigits hpos h
  intro c hc
  rw [hds] at hc
  obtain ⟨d, hd, rfl⟩ := List.mem_map.mp hc
  exact hP d (hsmall d hd)

/-! ### Numbers of characters -/

theorem toNat_lt_limit (c : Char) : c.toNat < 0x110000 := by
  have hvalid := c.valid
  have hval : c.val.toNat = c.toNat := rfl
  simp only [UInt32.isValidChar, Nat.isValidChar, hval] at hvalid
  omega

/-- What is neither printable nor a break is a character by its number. -/
theorem exists_codeMark? {c : Char} (hfeed : c ≠ '\n') (hreturn : c ≠ '\r') (htab : c ≠ '\t')
    (hprintable : ¬ isPrintable c = true) : ∃ mark, codeMark? c = some mark := by
  unfold codeMark?
  rw [if_neg (by simp [hfeed, hreturn, htab, hprintable])]
  split
  · exact ⟨_, rfl⟩
  · split <;> exact ⟨_, rfl⟩

/-- A character by its number is the letter in front of it and digits. -/
theorem codeEscape_of_codeMark? {c mark : Char} (h : codeMark? c = some mark) :
    isPrintable c = false
      ∧ ∃ width, (mark, width) ∈ codeMarks ∧ c.toNat < 16 ^ width
        ∧ codeEscape c = '\\' :: mark :: hexDigits width c.toNat := by
  unfold codeMark? at h
  by_cases hshown : c = '\n' ∨ c = '\r' ∨ c = '\t' ∨ isPrintable c
  · rw [if_pos hshown] at h
    cases h
  rw [if_neg hshown] at h
  simp only [not_or, Bool.not_eq_true] at hshown
  refine ⟨hshown.2.2.2, ?_⟩
  have hlimit := toNat_lt_limit c
  by_cases hshort : c.toNat < 0x100
  · rw [if_pos hshort] at h
    cases h
    exact ⟨2, by simp [codeMarks], hshort, by simp [codeEscape, hshort]⟩
  rw [if_neg hshort] at h
  by_cases hlong : c.toNat < 0x10000
  · rw [if_pos hlong] at h
    cases h
    exact ⟨4, by simp [codeMarks], hlong, by simp [codeEscape, hshort, hlong]⟩
  · rw [if_neg hlong] at h
    cases h
    exact ⟨8, by simp [codeMarks], by simp; omega, by simp [codeEscape, hshort, hlong]⟩

/-- Behind its backslash, a character by its number is letters and digits. -/
theorem exists_codeTail {c mark : Char} (h : codeMark? c = some mark) :
    ∃ tail, codeEscape c = '\\' :: mark :: tail ∧ ∀ d ∈ mark :: tail, d.isAlphanum = true := by
  obtain ⟨-, width, hwidth, hlt, heq⟩ := codeEscape_of_codeMark? h
  have hmark : ∀ m ∈ codeMarks, m.1.isAlphanum = true ∧ 0 < m.2 := by decide
  have hdigits : ∀ d < 16, (Nat.digitChar d).isAlphanum = true := by decide
  obtain ⟨hletter, hpos⟩ := hmark _ hwidth
  refine ⟨hexDigits width c.toNat, heq, List.forall_mem_cons.mpr ⟨hletter, ?_⟩⟩
  exact forall_mem_hexDigits (P := fun c => c.isAlphanum = true) hdigits hpos hlt

theorem isPrintable_of_isWordChar {c : Char} (h : isWordChar c = true) : isPrintable c = true := by
  have hbound := (toNat_lt_of_isWordChar h).2
  exact of_ascii (P := fun c => isWordChar c = true → isPrintable c = true) (by decide)
    (by omega) h

theorem isPrintable_of_isAlphanum {c : Char} (h : c.isAlphanum = true) : isPrintable c = true :=
  isPrintable_of_isWordChar (by simp [isWordChar, h])

/-! ### Characters inside of a literal -/

/-- The letters that stand behind a backslash for line breaks and tabs. -/
def breakLetters : List (Char × Char) := [('n', '\n'), ('r', '\r'), ('t', '\t')]

/-- The forms in which a character is written between quotes. -/
inductive IsForm (quote c : Char) : List Char → Prop where
  | backslash (h : c = '\\' ∨ c = quote) : IsForm quote c ['\\', c]
  | letter {l : Char} (h : (l, c) ∈ breakLetters) : IsForm quote c ['\\', l]
  /-- The character itself. -/
  | plain (hprintable : isPrintable c = true) (hbackslash : c ≠ '\\') (hquote : c ≠ quote) :
      IsForm quote c [c]
  /-- The number of the character. -/
  | code {mark : Char} {width : Nat} (h : (mark, width) ∈ codeMarks) (hwidth : c.toNat < 16 ^ width) :
      IsForm quote c ('\\' :: mark :: hexDigits width c.toNat)

theorem isForm_escaped (quote c : Char) : IsForm quote c (escaped quote c) := by
  unfold escaped
  split
  next h => exact .backslash h
  split
  next h => exact .letter (by simp [breakLetters, h])
  split
  next h => exact .letter (by simp [breakLetters, h])
  split
  next h => exact .letter (by simp [breakLetters, h])
  split
  next hspecial _ _ _ hprintable =>
    rw [not_or] at hspecial
    exact .plain hprintable hspecial.1 hspecial.2
  next hspecial hfeed hreturn htab hprintable =>
    obtain ⟨mark, hmark⟩ := exists_codeMark? hfeed hreturn htab hprintable
    obtain ⟨-, width, hwidth, hlt, heq⟩ := codeEscape_of_codeMark? hmark
    rw [heq]
    exact .code hwidth hlt

/-- Everything between the quotes is shown as it is. -/
theorem isPrintable_of_mem_escaped {quote c d : Char} (hquote : isPrintable quote = true)
    (h : d ∈ escaped quote c) : isPrintable d = true := by
  have hbackslash : isPrintable '\\' = true := by decide
  have hform := isForm_escaped quote c
  generalize escaped quote c = w at hform h
  cases hform with
  | backslash hc =>
      obtain rfl | rfl : d = '\\' ∨ d = c := by simpa using h
      · exact hbackslash
      · obtain rfl | rfl := hc
        · exact hbackslash
        · exact hquote
  | @letter l hl =>
      have hletters : ∀ m ∈ breakLetters, isPrintable m.1 = true := by decide
      obtain rfl | rfl : d = '\\' ∨ d = l := by simpa using h
      · exact hbackslash
      · exact hletters _ hl
  | plain hprintable => exact List.mem_singleton.mp h ▸ hprintable
  | code hmark hwidth =>
      have hmarks : ∀ m ∈ codeMarks, isPrintable m.1 = true ∧ 0 < m.2 := by decide
      have hdigits : ∀ n < 16, isPrintable (Nat.digitChar n) = true := by decide
      rcases List.mem_cons.mp h with rfl | h
      · exact hbackslash
      rcases List.mem_cons.mp h with rfl | h
      · exact (hmarks _ hmark).1
      · exact forall_mem_hexDigits (P := fun c => isPrintable c = true) hdigits (hmarks _ hmark).2
          hwidth d h

theorem quoteFor_eq (s : List Char) : quoteFor s = '\'' ∨ quoteFor s = '"' := by
  unfold quoteFor
  split
  · exact .inr rfl
  · exact .inl rfl

/-- **A text between quotes** is shown as it is. -/
theorem isPrintable_quoted (s : String) : ∀ c ∈ (quoted s).toList, isPrintable c = true := by
  have hquote : isPrintable (quoteFor s.toList) = true := by
    rcases quoteFor_eq s.toList with heq | heq
    · rw [heq]
      decide
    · rw [heq]
      decide
  rw [quoted, String.toList_ofList, quotedChars]
  intro c hc
  rcases List.mem_append.mp hc with hc | hc
  · rcases List.mem_cons.mp hc with rfl | hc
    · exact hquote
    · obtain ⟨d, -, hd⟩ := List.mem_flatMap.mp hc
      exact isPrintable_of_mem_escaped hquote hd
  · exact List.mem_singleton.mp hc ▸ hquote

/-- What is shown as it is ends no line and is no tab. -/
theorem not_isLineEnd_of_isPrintable {c : Char} (h : isPrintable c = true) :
    isLineEnd c = false ∧ c ≠ '\t' ∧ 32 ≤ c.toNat := by
  have hlow : ∀ n < 32, Table.unprintable.covers n = true := by decide
  have hends : ∀ n ∈ [133, 8232, 8233], Table.unprintable.covers n = true := by decide +kernel
  rw [isPrintable, Bool.not_eq_true'] at h
  have hlarge : 32 ≤ c.toNat := by
    by_contra hsmall
    rw [hlow _ (Nat.lt_of_not_le hsmall)] at h
    cases h
  refine ⟨?_, fun htab => ?_, hlarge⟩
  · have hfree : ∀ n ∈ [133, 8232, 8233], c.toNat ≠ n := by
      rintro n hn heq
      rw [heq, hends n hn] at h
      cases h
    simp only [List.mem_cons, List.not_mem_nil, or_false, forall_eq_or_imp, forall_eq] at hfree
    simp [isLineEnd, hfree]
    omega
  · rw [htab] at hlarge
    exact absurd hlarge (by decide)

end ApiClientGen.Text
