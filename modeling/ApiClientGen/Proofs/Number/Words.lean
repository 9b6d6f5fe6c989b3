/-
Words for numbers.

A whole number is written in digits without a needless zero in front, and a fractional one with a
point, digits on both sides of it, and maybe a power of ten behind them.  Reading such a word gives
the number that its digits stand for.

Whatever its script, a decimal digit stands for less than ten, and a hexadecimal one for less than
sixteen; so a number of so many digits is bounded by a power of its base.
-/
import Mathlib.Data.List.Basic
import Mathlib.Data.List.TakeWhile
import ApiClientGen.Number.Reading

namespace ApiClientGen.Number

open ApiClientGen.Text

/-! ### Digits -/

/-- A test that holds of one character and not of another tells them apart. -/
theorem ne_of_test {p : Char → Bool} {c d : Char} (hc : p c = true) (hd : p d = false) : c ≠ d := by
  rintro rfl
  rw [hc] at hd
  cases hd

theorem runDigit?_lt {table : RangeTable} {n d : Nat} (h : runDigit? table n = some d) : d < 10 := by
  induction table with
  | nil => cases h
  | cons range table ih =>
      unfold runDigit? at h
      split at h
      · cases h
      split at h
      · cases h
        exact Nat.mod_lt _ (by decide)
      · exact ih h

/-- A hexadecimal digit stands for less than sixteen. -/
theorem digitValue?_lt {c : Char} (hc : isHexDigit c = true) {d : Nat}
    (h : digitValue? c = some d) : d < 16 := by
  simp only [isHexDigit, Char.isDigit, Bool.or_eq_true, Bool.and_eq_true, decide_eq_true_eq,
    Char.le_def, UInt32.le_iff_toNat_le] at hc
  unfold digitValue? at h
  split at h
  · rename_i hletter
    cases h
    simp only [Char.le_def, UInt32.le_iff_toNat_le, Char.toNat] at hletter ⊢
    simp at hc hletter ⊢
    omega
  split at h
  · rename_i hletter
    cases h
    simp only [Char.le_def, UInt32.le_iff_toNat_le, Char.toNat] at hletter ⊢
    simp at hc hletter ⊢
    omega
  · exact Nat.lt_trans (runDigit?_lt h) (by decide)

/-- A number of digits that are all below the base is below a power of the base. -/
theorem ofDigits_lt {base : Nat} {ds : List Nat} (h : ∀ d ∈ ds, d < base) :
    ofDigits base ds < Nat.pow base ds.length := by
  have haux : ∀ (ds : List Nat) (n : Nat), (∀ d ∈ ds, d < base) →
      ds.foldl (fun n d => n * base + d) n < (n + 1) * base ^ ds.length := by
    intro ds
    induction ds with
    | nil => intro n _; simp
    | cons d ds ih =>
        intro n hds
        refine Nat.lt_of_lt_of_le (ih (n * base + d) fun x hx => hds x (List.mem_cons_of_mem _ hx)) ?_
        have hd := hds d (by simp)
        rw [List.length_cons, Nat.pow_succ', ← Nat.mul_assoc]
        refine Nat.mul_le_mul_right _ ?_
        rw [Nat.add_mul]
        omega
  simpa [ofDigits] using haux ds 0 h

/-- The code that hexadecimal digits stand for is bounded by how many there are. -/
theorem ofDigits_hex_lt {digits : List Char} (h : digits.all isHexDigit = true) :
    ofDigits 16 (digits.filterMap digitValue?) < Nat.pow 16 digits.length := by
  refine Nat.lt_of_lt_of_le (ofDigits_lt fun d hd => ?_)
    (Nat.pow_le_pow_right (by decide) (List.length_filterMap_le _ _))
  obtain ⟨c, hc, hvalue⟩ := List.mem_filterMap.mp hd
  exact digitValue?_lt (List.all_eq_true.mp h c hc) hvalue

/-- Some decimal digits, and nothing else. -/
structure AreDigits (ds : List Char) : Prop where
  ne_nil : ds ≠ []
  digits : ∀ c ∈ ds, c.isDigit = true

/-- Digits without a needless zero in front. -/
structure AreWhole (ds : List Char) : Prop extends AreDigits ds where
  zero : ds.head? = some '0' → ds = ['0']

/-- The number that decimal digits stand for. -/
def digitsNumber (ds : List Char) : Nat := ofDigits 10 (ds.filterMap decimalDigit?)

theorem decimalDigit?_of_isDigit {c : Char} (h : c.isDigit = true) :
    decimalDigit? c = some (c.toNat - 48) := by
  have htable : ∀ n < 58, 48 ≤ n → runDigit? Table.decimalDigit n = some (n - 48) := by
    decide
  have hrange : 48 ≤ c.toNat ∧ c.toNat ≤ 57 := Char.isDigit_iff_toNat.mp h
  exact htable c.toNat (by omega) hrange.1

theorem digitValue?_of_isDigit {c : Char} (h : c.isDigit = true) :
    digitValue? c = some (c.toNat - 48) := by
  rw [← decimalDigit?_of_isDigit h]
  have hrange : 48 ≤ c.toNat ∧ c.toNat ≤ 57 := Char.isDigit_iff_toNat.mp h
  unfold digitValue?
  have hsmall : ¬ ('a' ≤ c ∧ c ≤ 'z') := by
    rintro ⟨hle, -⟩
    have : 'a'.toNat ≤ c.toNat := hle
    simp at this
    omega
  have hcapital : ¬ ('A' ≤ c ∧ c ≤ 'Z') := by
    rintro ⟨hle, -⟩
    have : 'A'.toNat ≤ c.toNat := hle
    simp at this
    omega
  rw [if_neg hsmall, if_neg hcapital]

theorem sub_lt_ten {c : Char} (h : c.isDigit = true) : c.toNat - 48 < 10 := by
  have hrange : 48 ≤ c.toNat ∧ c.toNat ≤ 57 := Char.isDigit_iff_toNat.mp h
  omega

/-- No digit is a point. -/
theorem ne_point_of_isDigit {c : Char} (h : c.isDigit = true) : (c == '.') = false :=
  beq_eq_false_iff_ne.mpr (ne_of_test h (by decide))

/-- Digits without low lines between them are read as they are. -/
theorem spacedDigits?_of_areDigits {ds : List Char} (h : AreDigits ds) :
    spacedDigits? 10 ds = some (ds.filterMap decimalDigit?) := by
  obtain ⟨hne, hdigits⟩ := h
  induction ds with
  | nil => exact absurd rfl hne
  | cons c rest ih =>
      have hc := hdigits c (by simp)
      have hrest := fun d hd => hdigits d (List.mem_cons_of_mem c hd)
      cases rest with
      | nil =>
          simp [spacedDigits?, digitValue?_of_isDigit hc, decimalDigit?_of_isDigit hc, sub_lt_ten hc]
      | cons d rest =>
          have hline : d ≠ '_' := ne_of_test (hrest d (by simp)) (by decide)
          rw [spacedDigits?, digitValue?_of_isDigit hc, ih (by simp) hrest]
          · simp [sub_lt_ten hc, decimalDigit?_of_isDigit hc]
          · intro hnil
            cases hnil
          · intro rest' heq
            cases heq
            exact hline rfl

theorem decimalDigits_eq_map {ds : List Char} (h : ∀ c ∈ ds, c.isDigit = true) :
    ds.filterMap decimalDigit? = ds.map fun c => c.toNat - 48 := by
  rw [← List.filterMap_eq_map]
  exact List.filterMap_congr fun c hc => decimalDigit?_of_isDigit (h c hc)

theorem length_decimalDigits {ds : List Char} (h : ∀ c ∈ ds, c.isDigit = true) :
    (ds.filterMap decimalDigit?).length = ds.length := by
  rw [decimalDigits_eq_map h, List.length_map]

/-! ### Characters of words -/

/-- Whether a character may stand in a number or in a word for a value. -/
def isWordChar (c : Char) : Bool := c.isAlphanum || c == '-' || c == '+' || c == '.'

/-- What holds of the first 128 characters holds of each of them. -/
theorem of_ascii {P : Char → Prop} (h : ∀ n < 128, P (Char.ofNat n)) {c : Char}
    (hc : c.toNat < 128) : P c := by
  have hsame := h c.toNat hc
  rwa [Char.ofNat_toNat] at hsame

theorem toNat_lt_of_isWordChar {c : Char} (h : isWordChar c = true) : 32 < c.toNat ∧ c.toNat < 127 := by
  have hbound : c.toNat < 128 := by
    unfold isWordChar Char.isAlphanum Char.isAlpha Char.isUpper Char.isLower at h
    simp only [Char.isDigit, Bool.or_eq_true, Bool.and_eq_true, decide_eq_true_eq, beq_iff_eq,
      UInt32.le_iff_toNat_le] at h
    have hval : c.val.toNat = c.toNat := rfl
    rcases h with ((h | h) | h) | h
    · simp at h
      omega
    all_goals subst h; decide
  exact of_ascii (P := fun c => isWordChar c = true → 32 < c.toNat ∧ c.toNat < 127)
    (by decide) hbound h

theorem isWordChar_of_isDigit {c : Char} (h : c.isDigit = true) : isWordChar c = true := by
  simp [isWordChar, Char.isAlphanum, h]

theorem isNumberBlank_of_isWordChar {c : Char} (h : isWordChar c = true) :
    isNumberBlank c = false := by
  have hrange := toNat_lt_of_isWordChar h
  have hspace : c ≠ ' ' := ne_of_test h (by decide)
  simp [isNumberBlank, hspace]
  omega

/-- A word has no blanks around it that could be taken off. -/
theorem strip_word {s : List Char} (h : ∀ c ∈ s, isWordChar c = true) :
    dropEndWhile isNumberBlank (s.dropWhile isNumberBlank) = s := by
  have hkeep : ∀ l : List Char, (∀ c ∈ l, isWordChar c = true) → l.dropWhile isNumberBlank = l := by
    intro l hl
    cases l with
    | nil => rfl
    | cons c l => rw [List.dropWhile_cons_of_neg]; simp [isNumberBlank_of_isWordChar (hl c (by simp))]
  rw [hkeep s h, dropEndWhile, hkeep s.reverse fun c hc => h c (List.mem_reverse.mp hc),
    List.reverse_reverse]

/-! ### Integers -/

/-- A sign in front of digits, if there is one. -/
def signed (negative : Bool) (s : List Char) : List Char := if negative then '-' :: s else s

theorem signed_append (negative : Bool) (s t : List Char) :
    signed negative s ++ t = signed negative (s ++ t) := by
  cases negative <;> rfl

theorem mem_signed (negative : Bool) {s : List Char} {c : Char} (h : c ∈ s) :
    c ∈ signed negative s := by
  cases negative with
  | true => exact List.mem_cons_of_mem _ h
  | false => exact h

theorem isEmpty_signed (negative : Bool) {s : List Char} (h : s ≠ []) :
    (signed negative s).isEmpty = false := by
  cases negative with
  | true => rfl
  | false => exact List.isEmpty_eq_false_iff.mpr h

theorem takeSign_of_isDigit {c : Char} (hc : c.isDigit = true) (s : List Char) :
    takeSign (c :: s) = (false, c :: s) := by
  unfold takeSign
  split
  · rename_i heq
    cases heq
    exact absurd hc (by decide)
  · rename_i heq
    cases heq
    exact absurd hc (by decide)
  · rfl

theorem takeSign_signed (negative : Bool) {c : Char} (hc : c.isDigit = true) (s : List Char) :
    takeSign (signed negative (c :: s)) = (negative, c :: s) := by
  cases negative with
  | true => rfl
  | false => exact takeSign_of_isDigit hc s

theorem isWordChar_of_mem_signed (negative : Bool) {s : List Char}
    (h : ∀ c ∈ s, isWordChar c = true) : ∀ c ∈ signed negative s, isWordChar c = true := by
  cases negative with
  | true => exact List.forall_mem_cons.mpr ⟨by decide, h⟩
  | false => exact h

/-- A whole number carries no mark of a base. -/
theorem withoutMark_of_areWhole {ds : List Char} (h : AreWhole ds) :
    withoutMark 10 ds = (10, ds) := by
  unfold withoutMark
  split
  · rename_i mark rest
    cases h.zero rfl
  · rfl

/-- **An integer is read** as the number that its digits stand for, if there are not too many. -/
theorem readInteger_signed (negative : Bool) {ds : List Char} (h : AreWhole ds) :
    readInteger 10 (signed negative ds)
      = if digitLimit < ds.length then .error (.tooManyDigits ds.length)
        else .ok (if negative then -(digitsNumber ds : Int) else digitsNumber ds) := by
  obtain ⟨c, rest, rfl⟩ := List.exists_cons_of_ne_nil h.ne_nil
  unfold readInteger
  dsimp only
  rw [strip_word (isWordChar_of_mem_signed _ fun c hc => isWordChar_of_isDigit (h.digits c hc)),
    takeSign_signed negative (h.digits c (by simp))]
  dsimp only
  rw [withoutMark_of_areWhole h]
  dsimp only
  rw [spacedDigits?_of_areDigits h.toAreDigits]
  dsimp only
  rw [length_decimalDigits h.digits]
  simp only [true_and]
  split
  · rfl
  · simp [digitsNumber]

/-! ### Fractional numbers -/

/-- A word for a fractional number: digits on both sides of a point, and maybe a power of ten. -/
structure FractionWord where
  negative : Bool
  whole : List Char
  fraction : List Char
  /-- The sign and the digits of the power. -/
  power : Option (Bool × List Char)
  areWhole : AreWhole whole
  areFraction : AreDigits fraction
  arePower : ∀ p ∈ power, AreDigits p.2

namespace FractionWord

variable (w : FractionWord)

/-- The characters of the power of ten. -/
def powerChars : List Char :=
  match w.power with
  | none => []
  | some (negative, ds) => 'e' :: (if negative then '-' else '+') :: ds

/-- The characters without the sign. -/
def body : List Char := w.whole ++ '.' :: w.fraction ++ w.powerChars

/-- The characters of the word. -/
def chars : List Char := signed w.negative w.body

/-- The power of ten that the word names. -/
def exponent : Int :=
  match w.power with
  | none => 0
  | some (negative, ds) => if negative then -(digitsNumber ds : Int) else digitsNumber ds

/-- The number that the word stands for. -/
def value : Binary64 :=
  .ofDecimal w.negative (digitsNumber (w.whole ++ w.fraction)) (w.exponent - w.fraction.length)

/-- The word without its sign. -/
def unsigned : FractionWord := { w with negative := false }

/-- All other characters than digits are those of the point, of signs and of the power. -/
theorem isDigit_or_of_mem_body {c : Char} (hc : c ∈ w.body) :
    c.isDigit = true ∨ c ∈ ['.', 'e', '-', '+'] := by
  rcases List.mem_append.mp hc with hc | hc
  · rcases List.mem_append.mp hc with hc | hc
    · exact Or.inl (w.areWhole.digits c hc)
    rcases List.mem_cons.mp hc with rfl | hc
    · exact Or.inr (by decide)
    · exact Or.inl (w.areFraction.digits c hc)
  · unfold powerChars at hc
    split at hc
    · cases hc
    · rename_i negative ds heq
      rcases List.mem_cons.mp hc with rfl | hc
      · exact Or.inr (by decide)
      rcases List.mem_cons.mp hc with rfl | hc
      · cases negative <;> exact Or.inr (by decide)
      · exact Or.inl ((w.arePower (negative, ds) heq).digits c hc)

theorem isDigit_or_of_mem_chars {c : Char} (hc : c ∈ w.chars) :
    c.isDigit = true ∨ c ∈ ['.', 'e', '-', '+'] := by
  unfold chars signed at hc
  split at hc
  · rcases List.mem_cons.mp hc with rfl | hc
    · exact Or.inr (by decide)
    · exact w.isDigit_or_of_mem_body hc
  · exact w.isDigit_or_of_mem_body hc

theorem isWordChar_of_mem_chars : ∀ c ∈ w.chars, isWordChar c = true := by
  intro c hc
  rcases w.isDigit_or_of_mem_chars hc with hdigit | hmark
  · exact isWordChar_of_isDigit hdigit
  · exact List.all_eq_true.mp (by decide : ['.', 'e', '-', '+'].all isWordChar = true) c hmark

/-- The word begins with a digit behind its sign. -/
theorem exists_body : ∃ c rest, w.body = c :: rest ∧ c.isDigit = true := by
  obtain ⟨c, rest, heq⟩ := List.exists_cons_of_ne_nil w.areWhole.ne_nil
  exact ⟨c, rest ++ '.' :: w.fraction ++ w.powerChars, by simp [body, heq],
    w.areWhole.digits c (by simp [heq])⟩

theorem takeSign_chars : takeSign w.chars = (w.negative, w.body) := by
  obtain ⟨c, rest, heq, hc⟩ := w.exists_body
  rw [chars, heq, takeSign_signed w.negative hc]

end FractionWord

theorem splitAtFirst_append {p : Char → Bool} {s : List Char} (hs : ∀ c ∈ s, p c = false) {c : Char}
    (hc : p c = true) (t : List Char) : splitAtFirst p (s ++ c :: t) = (s, some t) := by
  have htake : (s ++ c :: t).takeWhile (fun c => !p c) = s := by
    rw [List.takeWhile_append_of_pos fun d hd => by simp [hs d hd]]
    simp [hc]
  have hdrop : (s ++ c :: t).dropWhile (fun c => !p c) = c :: t := by
    rw [List.dropWhile_append_of_pos fun d hd => by simp [hs d hd]]
    simp [hc]
  rw [splitAtFirst, htake, hdrop]

theorem splitAtFirst_none {p : Char → Bool} {s : List Char} (hs : ∀ c ∈ s, p c = false) :
    splitAtFirst p s = (s, none) := by
  have htake : s.takeWhile (fun c => !p c) = s :=
    List.takeWhile_eq_self_iff.mpr fun c hc => by simp [hs c hc]
  have hdrop : s.dropWhile (fun c => !p c) = [] :=
    List.dropWhile_eq_nil_iff.mpr fun c hc => by simp [hs c hc]
  rw [splitAtFirst, htake, hdrop]

/-- The sign of a decimal is that of the nearest number. -/
theorem ofDecimal_neg (digits : Nat) (exponent : Int) :
    Binary64.ofDecimal true digits exponent = (Binary64.ofDecimal false digits exponent).neg := by
  unfold Binary64.ofDecimal Binary64.ofQuotient
  dsimp only
  repeat' split
  all_goals rfl

namespace FractionWord

variable (w : FractionWord)

/-- The power is what stands behind the letter for it. -/
theorem splitAtFirst_body :
    splitAtFirst (fun c => c == 'e' || c == 'E') w.body
      = (w.whole ++ '.' :: w.fraction,
        w.power.map fun p => (if p.1 then '-' else '+') :: p.2) := by
  have hletter : ∀ c, c.isDigit = true → (c == 'e' || c == 'E') = false := by
    intro c hc
    rw [Bool.or_eq_false_iff, beq_eq_false_iff_ne, beq_eq_false_iff_ne]
    exact ⟨ne_of_test hc (by decide), ne_of_test hc (by decide)⟩
  have hmantissa : ∀ c ∈ w.whole ++ '.' :: w.fraction, (c == 'e' || c == 'E') = false := by
    intro c hc
    rcases List.mem_append.mp hc with hc | hc
    · exact hletter c (w.areWhole.digits c hc)
    rcases List.mem_cons.mp hc with rfl | hc
    · decide
    · exact hletter c (w.areFraction.digits c hc)
  unfold body powerChars
  cases hpower : w.power with
  | none => rw [List.append_nil, splitAtFirst_none hmantissa]; rfl
  | some p => rw [splitAtFirst_append hmantissa (by decide)]; rfl

theorem splitAtFirst_mantissa :
    splitAtFirst (· == '.') (w.whole ++ '.' :: w.fraction) = (w.whole, some w.fraction) := by
  exact splitAtFirst_append (fun c hc => ne_point_of_isDigit (w.areWhole.digits c hc)) (by decide) _

theorem exponent?_power :
    exponent? (w.power.map fun p => (if p.1 then '-' else '+') :: p.2) = some w.exponent := by
  cases hpower : w.power with
  | none => simp [exponent, hpower, exponent?]
  | some p =>
      have hdigits := spacedDigits?_of_areDigits (w.arePower p hpower)
      obtain ⟨negative, ds⟩ := p
      cases negative <;>
        simp [exponent, hpower, exponent?, takeSign, hdigits, digitsNumber]

/-- **A fractional number is read** as the number that its digits stand for. -/
theorem readFraction?_chars : readFraction? w.chars = some w.value := by
  have hpoint : '.' ∈ lowered w.body := List.mem_map.mpr ⟨'.', by simp [body], by decide⟩
  unfold readFraction?
  dsimp only
  rw [strip_word w.isWordChar_of_mem_chars, w.takeSign_chars]
  dsimp only
  rw [if_neg (by rintro (h | h) <;> (rw [h] at hpoint; exact absurd hpoint (by decide))),
    if_neg (by rintro h; rw [h] at hpoint; exact absurd hpoint (by decide)),
    w.splitAtFirst_body]
  dsimp only
  rw [w.splitAtFirst_mantissa, w.exponent?_power]
  have hdigits : ∀ ds, AreDigits ds → optionalDigits? ds = some (ds.filterMap decimalDigit?) := by
    intro ds h
    rw [optionalDigits?, if_neg (by simpa using h.ne_nil), spacedDigits?_of_areDigits h]
  rw [Option.getD_some, hdigits _ w.areWhole.toAreDigits, hdigits _ w.areFraction]
  have hsome : (w.whole.filterMap decimalDigit?).isEmpty = false := by
    rw [List.isEmpty_eq_false_iff, ← List.length_pos_iff, length_decimalDigits w.areWhole.digits]
    exact List.length_pos_iff.mpr w.areWhole.ne_nil
  simp only [Option.bind_eq_bind, Option.bind_some, hsome, Bool.false_and, Bool.false_eq_true,
    if_false, length_decimalDigits w.areFraction.digits, ← List.filterMap_append]
  rfl

theorem readFraction?_body : readFraction? w.body = some w.unsigned.value :=
  w.unsigned.readFraction?_chars

/-- A sign only turns the number around. -/
theorem value_eq : w.value = if w.negative then w.unsigned.value.neg else w.unsigned.value := by
  have hunsigned : w.unsigned.value = .ofDecimal false (digitsNumber (w.whole ++ w.fraction))
      (w.exponent - w.fraction.length) := rfl
  rw [hunsigned, value]
  cases w.negative with
  | false => rw [if_neg Bool.false_ne_true]
  | true => rw [if_pos rfl, ofDecimal_neg]

end FractionWord

end ApiClientGen.Number
