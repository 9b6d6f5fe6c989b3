/-
Texts of numbers.

The text of an integer is a word for a whole number.  The text of a finite number is a word for a
fractional one if it has a point; without a point there is only the scientific notation of a
number with a single digit, such as `1e+16`.
-/
import Mathlib.Tactic.Ring
import ApiClientGen.Number.Shortest
import ApiClientGen.Proofs.Number.Words

namespace ApiClientGen.Number

/-! ### Digits of numbers -/

theorem areDigits_toDigits (n : Nat) : AreDigits (Nat.toDigits 10 n) where
  ne_nil := Nat.toDigits_ne_nil
  digits _ hc := Nat.isDigit_of_mem_toDigits (by decide) (by decide) hc

/-- A positive number does not begin with a zero. -/
theorem head?_toDigits {n : Nat} (hn : 0 < n) : (Nat.toDigits 10 n).head? ≠ some '0' := by
  induction n using Nat.strongRecOn with
  | _ n ih =>
      rw [Nat.toDigits_eq_if (by decide)]
      split
      · simp [Nat.pos_iff_ne_zero.mp hn]
      · rename_i hle
        have hrest := ih (n / 10) (by omega) (by omega)
        rwa [List.head?_append_of_ne_nil _ Nat.toDigits_ne_nil]

theorem areWhole_toDigits (n : Nat) : AreWhole (Nat.toDigits 10 n) where
  toAreDigits := areDigits_toDigits n
  zero h := by
    rcases Nat.eq_zero_or_pos n with rfl | hn
    · exact Nat.toDigits_zero 10
    · exact absurd h (head?_toDigits hn)

/-- The digits of a number stand for it. -/
theorem digitsNumber_toDigits (n : Nat) : digitsNumber (Nat.toDigits 10 n) = n := by
  rw [digitsNumber, decimalDigits_eq_map (areDigits_toDigits n).digits, ofDigits, List.foldl_map]
  conv_rhs => rw [← Nat.ofDigitChars_ten_toDigits (n := n), Nat.ofDigitChars_eq_foldl]
  simp only [Nat.mul_comm]
  rfl

theorem ofDigits_append (base : Nat) (xs ys : List Nat) :
    ofDigits base (xs ++ ys) = ofDigits base xs * base ^ ys.length + ofDigits base ys := by
  have haux : ∀ (ys : List Nat) (n : Nat),
      ys.foldl (fun n d => n * base + d) n = n * base ^ ys.length + ofDigits base ys := by
    intro ys
    induction ys with
    | nil => intro n; simp [ofDigits]
    | cons y ys ih =>
        intro n
        rw [ofDigits, List.foldl_cons, List.foldl_cons, ih, ih (0 * base + y), List.length_cons]
        ring
  rw [ofDigits, List.foldl_append, haux]
  rfl

/-- Digits behind others move these up. -/
theorem digitsNumber_append (s : List Char) {t : List Char} (ht : ∀ c ∈ t, c.isDigit = true) :
    digitsNumber (s ++ t) = digitsNumber s * 10 ^ t.length + digitsNumber t := by
  rw [digitsNumber, List.filterMap_append, ofDigits_append, length_decimalDigits ht]
  rfl

theorem digitsNumber_zeros (n : Nat) : digitsNumber (List.replicate n '0') = 0 := by
  induction n with
  | zero => rfl
  | succ n ih =>
      have hone : digitsNumber ['0'] = 0 := by decide
      rw [List.replicate_succ', digitsNumber_append _ (List.forall_mem_singleton.mpr rfl), ih, hone]
      rfl

theorem toList_toString_int (i : Int) :
    (toString i).toList = signed (decide (i < 0)) (Nat.toDigits 10 i.natAbs) := by
  cases i with
  | ofNat n => simp [Int.toString_eq_repr, Int.repr, signed]
  | negSucc n => simp [Int.toString_eq_repr, Int.repr, signed, Int.negSucc_lt_zero]

namespace Binary64

/-- The step between numbers is no larger than the number. -/
theorem pow_spareBits_le {units : Nat} (h : 0 < units) : Nat.pow 2 (spareBits units) ≤ units := by
  calc 2 ^ (Nat.log2 units + 1 - 53)
      ≤ 2 ^ Nat.log2 units := Nat.pow_le_pow_right (by decide) (by omega)
    _ ≤ units := Nat.log2_self_le (by omega)

/-- Zero does not read back as any positive number. -/
theorem not_insideInterval_zero {units : Nat} (h : 0 < units) (exponent : Int) :
    insideInterval (readBackInterval units) ⟨0, exponent⟩ = false := by
  have hstep := pow_spareBits_le h
  have hdown : 0 < Nat.pow 10 (-exponent).toNat := Nat.pow_pos (by decide)
  unfold insideInterval readBackInterval
  dsimp only
  generalize Nat.pow 2 (spareBits units) = step at hstep
  have hlow : ∀ below, below ≤ 2 * step →
      0 < (4 * units - below) * Nat.pow 10 (-exponent).toNat :=
    fun below hbelow => Nat.mul_pos (by omega) hdown
  have hbelow : (if units / step = Nat.pow 2 52 ∧ 0 < spareBits units then step else 2 * step)
      ≤ 2 * step := by
    split <;> omega
  have hpositive := hlow _ hbelow
  simp only [Nat.zero_mul, Nat.not_lt_zero, decide_false, Bool.false_and]
  split
  · simp only [Bool.and_eq_false_iff, decide_eq_false_iff_not, Nat.not_le]
    exact Or.inl hpositive
  · rfl

theorem dropZeros_digits (fuel d : Nat) (e : Int) (hd : d ≠ 0) : (dropZeros fuel d e).digits ≠ 0 := by
  induction fuel generalizing d e with
  | zero => exact hd
  | succ fuel ih =>
      unfold dropZeros
      split
      · rename_i hzero
        exact ih _ _ (by omega)
      · exact hd

/-- The shortest decimal of a positive number is not zero, if there is one. -/
theorem shortest_digits {units : Nat} (h : 0 < units) :
    (shortest units).digits ≠ 0 ∨ shortest units = ⟨0, 0⟩ := by
  unfold shortest
  dsimp only
  split
  · rename_i d hfind
    refine Or.inl (dropZeros_digits _ _ _ ?_)
    intro hzero
    have hinside := List.find?_some hfind
    obtain ⟨digits, exponent⟩ := d
    obtain rfl : digits = 0 := hzero
    rw [not_insideInterval_zero h] at hinside
    cases hinside
  · exact Or.inr rfl

end Binary64

theorem AreDigits.append {ds es : List Char} (hds : ∀ c ∈ ds, c.isDigit = true) (hes : AreDigits es) :
    AreDigits (ds ++ es) where
  ne_nil := by simp [hes.ne_nil]
  digits c hc := (List.mem_append.mp hc).elim (hds c) (hes.digits c)

theorem isDigit_of_mem_zeros {n : Nat} : ∀ c ∈ List.replicate n '0', c.isDigit = true := by
  intro c hc
  rw [List.eq_of_mem_replicate hc]
  rfl

/-- Digits that do not begin with a zero are those of a whole number. -/
theorem areWhole_of_head? {ds : List Char} (h : AreDigits ds) (hhead : ds.head? ≠ some '0') :
    AreWhole ds where
  toAreDigits := h
  zero heq := absurd heq hhead

/-- The exponent of a number in scientific notation: the letter, a sign and digits. -/
theorem exists_exponentText (e : Int) :
    ∃ ds, AreDigits ds ∧ digitsNumber ds = e.natAbs
      ∧ (Binary64.exponentText e).toList = 'e' :: (if e < 0 then '-' else '+') :: ds := by
  have hsign : (if e < 0 then "e-" else "e+").toList = ['e', if e < 0 then '-' else '+'] := by
    split <;> rfl
  have hdigits : (toString e.natAbs).toList = Nat.toDigits 10 e.natAbs := by
    rw [Nat.toString_eq_repr, Nat.toList_repr]
  unfold Binary64.exponentText
  dsimp only
  rw [String.toList_append, hsign]
  by_cases hshort : (toString e.natAbs).length < 2
  · refine ⟨'0' :: Nat.toDigits 10 e.natAbs,
      AreDigits.append (List.forall_mem_singleton.mpr rfl) (areDigits_toDigits _), ?_, ?_⟩
    · have hzero := digitsNumber_append ['0'] (areDigits_toDigits e.natAbs).digits
      rwa [show digitsNumber ['0'] = 0 by decide, Nat.zero_mul, Nat.zero_add,
        digitsNumber_toDigits] at hzero
    rw [if_pos hshort, String.toList_append, hdigits]
    rfl
  · refine ⟨Nat.toDigits 10 e.natAbs, areDigits_toDigits _, digitsNumber_toDigits _, ?_⟩
    rw [if_neg hshort, hdigits]
    rfl

theorem areWhole_zero : AreWhole ['0'] where
  ne_nil := by simp
  digits := List.forall_mem_singleton.mpr rfl
  zero _ := rfl

/-- The digits of a number with more of them behind, unless it is zero, are those of a whole number. -/
theorem areWhole_toDigits_append {n : Nat} {rest : List Char} (hrest : ∀ c ∈ rest, c.isDigit = true)
    (hzero : n = 0 → rest = []) : AreWhole (Nat.toDigits 10 n ++ rest) := by
  rcases Nat.eq_zero_or_pos n with hn | hn
  · rw [hzero hn, List.append_nil]
    exact areWhole_toDigits n
  · have hdigits := areDigits_toDigits n
    refine areWhole_of_head? ⟨by simp [hdigits.ne_nil], fun c hc => ?_⟩ ?_
    · exact (List.mem_append.mp hc).elim (hdigits.digits c) (hrest c)
    · rw [List.head?_append_of_ne_nil _ hdigits.ne_nil]
      exact head?_toDigits hn

/-- The first digits of a number are those of a whole number, unless there are none or it is zero. -/
theorem areWhole_take_toDigits {n k : Nat} (hn : 0 < n) (hk : 0 < k) :
    AreWhole ((Nat.toDigits 10 n).take k) := by
  have hdigits := areDigits_toDigits n
  refine areWhole_of_head? ⟨?_, fun c hc => hdigits.digits c (List.mem_of_mem_take hc)⟩ ?_
  · rw [Ne, List.take_eq_nil_iff, not_or]
    exact ⟨Nat.ne_of_gt hk, hdigits.ne_nil⟩
  · rw [List.head?_take, if_neg (Nat.ne_of_gt hk)]
    exact head?_toDigits hn

namespace FractionWord

/-- The word of digits on both sides of a point. -/
def ofPoint {whole fraction : List Char} (hwhole : AreWhole whole) (hfraction : AreDigits fraction) :
    FractionWord :=
  ⟨false, whole, fraction, none, hwhole, hfraction, fun _ h => nomatch h⟩

/-- The word of digits on both sides of a point and a power of ten behind them. -/
def ofPower {whole fraction power : List Char} (hwhole : AreWhole whole)
    (hfraction : AreDigits fraction) (negative : Bool) (hpower : AreDigits power) : FractionWord where
  negative := false
  whole
  fraction
  power := some (negative, power)
  areWhole := hwhole
  areFraction := hfraction
  arePower := by
    rintro p ⟨⟩
    exact hpower

/-- The word stands for a decimal, maybe with zeros behind its digits. -/
def Names (w : FractionWord) (d : Decimal) : Prop :=
  ∃ zeros : Nat, digitsNumber (w.whole ++ w.fraction) = d.digits * 10 ^ zeros
    ∧ w.exponent - w.fraction.length = d.exponent - zeros

end FractionWord

namespace Binary64

/-- The place of a decimal's point, counted from its first digit. -/
def place (d : Decimal) : Int := (Nat.toDigits 10 d.digits).length + d.exponent

/-! A decimal in positional notation has its point in front of its digits, behind them or inside. -/

theorem exists_word_pointInFront {d : Decimal} (hsmall : place d ≤ 0) :
    ∃ w : FractionWord, w.body = '0' :: '.'
        :: (List.replicate (-place d).toNat '0' ++ Nat.toDigits 10 d.digits) ∧ w.Names d := by
  have hdigits := areDigits_toDigits d.digits
  have hfraction := AreDigits.append (isDigit_of_mem_zeros (n := (-place d).toNat)) hdigits
  refine ⟨.ofPoint areWhole_zero hfraction, by simp [FractionWord.ofPoint, FractionWord.body,
    FractionWord.powerChars], 0, ?_, ?_⟩
  · have hzeros := digitsNumber_zeros (1 + (-place d).toNat)
    have happend := digitsNumber_append (List.replicate (1 + (-place d).toNat) '0') hdigits.digits
    rw [hzeros, digitsNumber_toDigits, Nat.zero_mul, Nat.zero_add, Nat.add_comm,
      List.replicate_succ] at happend
    simpa [FractionWord.ofPoint] using happend
  · simp only [FractionWord.ofPoint, FractionWord.exponent, List.length_append,
      List.length_replicate]
    unfold place at hsmall ⊢
    omega

theorem exists_word_pointBehind {d : Decimal} (hd : d.digits ≠ 0 ∨ d = ⟨0, 0⟩)
    (hlong : ((Nat.toDigits 10 d.digits).length : Int) ≤ place d) :
    ∃ w : FractionWord, w.body = Nat.toDigits 10 d.digits
        ++ List.replicate (place d - (Nat.toDigits 10 d.digits).length).toNat '0' ++ ['.', '0']
      ∧ w.Names d := by
  have hzeros : d.digits = 0 →
      List.replicate (place d - (Nat.toDigits 10 d.digits).length).toNat '0' = [] := by
    intro hd0
    obtain rfl := hd.resolve_left fun hne => hne hd0
    rfl
  have hlast : digitsNumber ['0'] = 0 := by decide
  refine ⟨.ofPoint (areWhole_toDigits_append isDigit_of_mem_zeros hzeros) areWhole_zero.toAreDigits,
    by simp [FractionWord.ofPoint, FractionWord.body, FractionWord.powerChars],
    (place d - (Nat.toDigits 10 d.digits).length).toNat + 1, ?_, ?_⟩
  · simp only [FractionWord.ofPoint]
    rw [digitsNumber_append _ (List.forall_mem_singleton.mpr rfl),
      digitsNumber_append _ isDigit_of_mem_zeros, digitsNumber_toDigits, digitsNumber_zeros, hlast,
      List.length_replicate, List.length_singleton]
    ring
  · simp only [FractionWord.ofPoint, FractionWord.exponent, List.length_singleton]
    unfold place at hlong ⊢
    omega

theorem exists_word_pointInside {d : Decimal} (hlarge : 0 < place d)
    (hshort : place d < (Nat.toDigits 10 d.digits).length) :
    ∃ w : FractionWord, w.body = (Nat.toDigits 10 d.digits).take (place d).toNat
        ++ '.' :: (Nat.toDigits 10 d.digits).drop (place d).toNat ∧ w.Names d := by
  have hpositive : 0 < d.digits := by
    refine Nat.pos_of_ne_zero fun hd0 => ?_
    rw [hd0, Nat.toDigits_zero, List.length_singleton] at hshort
    omega
  have hfraction : AreDigits ((Nat.toDigits 10 d.digits).drop (place d).toNat) := by
    refine ⟨?_, fun c hc => (areDigits_toDigits d.digits).digits c (List.mem_of_mem_drop hc)⟩
    rw [Ne, List.drop_eq_nil_iff]
    omega
  have hwhole := areWhole_take_toDigits hpositive (by omega : 0 < (place d).toNat)
  refine ⟨.ofPoint hwhole hfraction, by simp [FractionWord.ofPoint, FractionWord.body,
    FractionWord.powerChars], 0, ?_, ?_⟩
  · simp only [FractionWord.ofPoint]
    rw [List.take_append_drop, digitsNumber_toDigits, Nat.pow_zero, Nat.mul_one]
  · simp only [FractionWord.ofPoint, FractionWord.exponent, List.length_drop]
    unfold place at hlarge hshort ⊢
    omega

theorem decimalText_positional {d : Decimal} (hplace : -4 < place d ∧ place d ≤ 16)
    (hd : d.digits ≠ 0 ∨ d = ⟨0, 0⟩) :
    ∃ w : FractionWord, (decimalText d).toList = w.body ∧ w.Names d := by
  unfold decimalText
  dsimp only
  rw [← place, if_pos hplace]
  by_cases hsmall : place d ≤ 0
  · obtain ⟨w, hbody, hnames⟩ := exists_word_pointInFront hsmall
    exact ⟨w, by simp [hsmall, hbody], hnames⟩
  by_cases hlong : ((Nat.toDigits 10 d.digits).length : Int) ≤ place d
  · obtain ⟨w, hbody, hnames⟩ := exists_word_pointBehind hd hlong
    exact ⟨w, by simp [hsmall, hlong, hbody], hnames⟩
  · obtain ⟨w, hbody, hnames⟩ :=
      exists_word_pointInside (not_le.mp hsmall) (not_le.mp hlong)
    exact ⟨w, by simp [hsmall, hlong, hbody], hnames⟩

/-- The digits of a number in scientific notation: the first one and the others. -/
theorem decimalText_scientific {d : Decimal} (hplace : ¬ (-4 < place d ∧ place d ≤ 16)) :
    ∃ first tail power, Nat.toDigits 10 d.digits = first :: tail ∧ AreDigits power
      ∧ digitsNumber power = (place d - 1).natAbs
      ∧ (decimalText d).toList = first :: (if tail.isEmpty then [] else '.' :: tail)
        ++ 'e' :: (if place d - 1 < 0 then '-' else '+') :: power := by
  obtain ⟨power, hpower, hnumber, htext⟩ := exists_exponentText (place d - 1)
  obtain ⟨first, tail, heq⟩ := List.exists_cons_of_ne_nil (areDigits_toDigits d.digits).ne_nil
  refine ⟨first, tail, power, heq, hpower, hnumber, ?_⟩
  unfold decimalText
  dsimp only
  rw [← place, if_neg hplace, heq]
  cases tail <;> simp [htext]

/-- A number in scientific notation is a word, if it has more than one digit. -/
theorem exists_scientificWord {d : Decimal} {first second : Char} {tail power : List Char}
    (hdigits : Nat.toDigits 10 d.digits = first :: second :: tail) (hpower : AreDigits power)
    (hnumber : digitsNumber power = (place d - 1).natAbs) :
    ∃ w : FractionWord, first :: '.' :: second :: tail
        ++ 'e' :: (if place d - 1 < 0 then '-' else '+') :: power = w.body ∧ w.Names d := by
  have hall := areDigits_toDigits d.digits
  have hvalue := digitsNumber_toDigits d.digits
  have hlength : place d = (tail.length + 2 : Nat) + d.exponent := by
    rw [place, hdigits]
    rfl
  rw [hdigits] at hall hvalue
  have hfirst : AreWhole [first] :=
    ⟨⟨by simp, List.forall_mem_singleton.mpr (hall.digits first (by simp))⟩,
      fun h => by simpa using h⟩
  have hfraction : AreDigits (second :: tail) :=
    ⟨by simp, fun c hc => hall.digits c (List.mem_cons_of_mem _ hc)⟩
  refine ⟨.ofPower hfirst hfraction (decide (place d - 1 < 0)) hpower, ?_, 0, ?_, ?_⟩
  · simp [FractionWord.ofPower, FractionWord.body, FractionWord.powerChars]
  · simpa [FractionWord.ofPower] using hvalue
  · simp only [FractionWord.ofPower, FractionWord.exponent, hnumber, List.length_cons,
      decide_eq_true_eq]
    split <;> omega

/-- The text of a decimal is a word for it, if it has a point. -/
theorem exists_decimalText {d : Decimal} (hd : d.digits ≠ 0 ∨ d = ⟨0, 0⟩)
    (hpoint : '.' ∈ (decimalText d).toList) :
    ∃ w : FractionWord, (decimalText d).toList = w.body ∧ w.Names d := by
  by_cases hplace : -4 < place d ∧ place d ≤ 16
  · exact decimalText_positional hplace hd
  obtain ⟨first, tail, power, hdigits, hpower, hnumber, htext⟩ := decimalText_scientific hplace
  rw [htext] at hpoint ⊢
  cases tail with
  | nil =>
      -- Without further digits there is no point.
      have hfirst : first.isDigit = true := (areDigits_toDigits d.digits).digits first (by simp [hdigits])
      have hnopoint : ∀ c ∈ first :: 'e' :: (if place d - 1 < 0 then '-' else '+') :: power,
          c ≠ '.' := by
        simp only [List.forall_mem_cons]
        refine ⟨ne_of_test hfirst (by decide), by decide, ?_,
          fun c hc => ne_of_test (hpower.digits c hc) (by decide)⟩
        split <;> decide
      exact absurd rfl (hnopoint '.' hpoint)
  | cons second tail => exact exists_scientificWord hdigits hpower hnumber

/-- The text of a decimal has no other characters than a word for a number. -/
theorem isWordChar_of_mem_decimalText {d : Decimal} (hd : d.digits ≠ 0 ∨ d = ⟨0, 0⟩) :
    ∀ c ∈ (decimalText d).toList, isWordChar c = true := by
  by_cases hplace : -4 < place d ∧ place d ≤ 16
  · obtain ⟨w, htext, -⟩ := decimalText_positional hplace hd
    rw [htext]
    exact fun c hc => w.isWordChar_of_mem_chars c (mem_signed _ hc)
  obtain ⟨first, tail, power, hdigits, hpower, -, htext⟩ := decimalText_scientific hplace
  have hall : ∀ c ∈ first :: tail, isWordChar c = true := fun c hc =>
    isWordChar_of_isDigit ((areDigits_toDigits d.digits).digits c (hdigits ▸ hc))
  rw [List.forall_mem_cons] at hall
  rw [htext]
  simp only [List.forall_mem_append, List.forall_mem_cons]
  refine ⟨⟨hall.1, ?_⟩, by decide, ?_, fun c hc => isWordChar_of_isDigit (hpower.digits c hc)⟩
  · split
    · exact nofun
    · exact List.forall_mem_cons.mpr ⟨by decide, hall.2⟩
  · split <;> decide

/-- The text of a finite number is that of its shortest decimal behind its sign. -/
theorem toList_text_finite (negative : Bool) (units : Nat) :
    (finite negative units).text.toList
      = signed negative (if units = 0 then "0.0" else decimalText (shortest units)).toList := by
  rw [text, String.toList_append]
  cases negative <;> rfl

theorem isWordChar_of_mem_text {x : Binary64} (hx : x.isFinite = true) :
    ∀ c ∈ x.text.toList, isWordChar c = true := by
  cases x with
  | nan => cases hx
  | infinite negative => cases hx
  | finite negative units =>
      have hbody : ∀ c ∈ (if units = 0 then "0.0" else decimalText (shortest units)).toList,
          isWordChar c = true := by
        split
        · exact List.all_eq_true.mp (by decide)
        next hunits => exact isWordChar_of_mem_decimalText (shortest_digits (Nat.pos_of_ne_zero hunits))
      rw [toList_text_finite]
      cases negative with
      | false => exact hbody
      | true => exact List.forall_mem_cons.mpr ⟨rfl, hbody⟩

end Binary64

/-- **The text of a finite number** is a word for a fractional number, if it has a point. -/
theorem exists_fractionWord {x : Binary64} (hx : x.isFinite = true) (hpoint : '.' ∈ x.text.toList) :
    ∃ w : FractionWord, x.text.toList = w.chars := by
  cases x with
  | nan => cases hx
  | infinite negative => cases hx
  | finite negative units =>
      have hsigned : ∀ w : FractionWord, ∃ w' : FractionWord, w'.chars = signed negative w.body :=
        fun w => ⟨{ w with negative }, rfl⟩
      rw [Binary64.toList_text_finite] at hpoint ⊢
      suffices hbody : ∃ w : FractionWord,
          (if units = 0 then "0.0" else Binary64.decimalText (Binary64.shortest units)).toList
            = w.body by
        obtain ⟨w, hw⟩ := hbody
        obtain ⟨w', hw'⟩ := hsigned w
        exact ⟨w', by rw [hw, hw']⟩
      have hmem : ∀ s : List Char, '.' ∈ signed negative s → '.' ∈ s := by
        intro s hs
        unfold signed at hs
        split at hs
        · simpa using hs
        · exact hs
      have hpoint' := hmem _ hpoint
      split
      · exact ⟨.ofPoint areWhole_zero areWhole_zero.toAreDigits, rfl⟩
      · rename_i hunits
        rw [if_neg hunits] at hpoint'
        obtain ⟨w, hw, -⟩ := Binary64.exists_decimalText
          (Binary64.shortest_digits (Nat.pos_of_ne_zero hunits)) hpoint'
        exact ⟨w, hw⟩

end ApiClientGen.Number
