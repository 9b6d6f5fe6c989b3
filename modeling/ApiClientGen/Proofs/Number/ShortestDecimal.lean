/-
The shortest decimal is read as its number.

The decimals of so many digits are looked at one length after the other, up to seventeen digits.
With that many a neighbour of the number is nearer to it than half a step, since 2 ^ 53 is less than
10 ^ 16; so one of the candidates lies in the interval that is read as the number, and whichever is
taken does.  Zeros at its end go afterwards, which changes the digits and the exponent but not the
decimal.
-/
import ApiClientGen.Proofs.Number.Rounding

namespace ApiClientGen.Number.Binary64

/-! ### The same decimal with other digits -/

/-- A zero at the end counts as much as one more in the exponent. -/
theorem insideInterval_mul_ten (bounds : Nat × Nat × Bool) (d : Nat) (e : Int) :
    insideInterval bounds ⟨d * 10, e⟩ = insideInterval bounds ⟨d, e + 1⟩ := by
  unfold insideInterval
  dsimp only
  by_cases he : 0 ≤ e
  · have hup : (e + 1).toNat = e.toNat + 1 := by omega
    have hdown : (-e).toNat = 0 ∧ (-(e + 1)).toNat = 0 := by omega
    have hdigits : d * 10 * Nat.pow 10 e.toNat = d * Nat.pow 10 (e.toNat + 1) := by
      simp only [Nat.pow_eq]
      ring
    rw [hup, hdown.1, hdown.2, hdigits]
  · have hup : e.toNat = 0 ∧ (e + 1).toNat = 0 := by omega
    have hdown : (-e).toNat = (-(e + 1)).toNat + 1 := by omega
    rw [hup.1, hup.2, hdown]
    simp only [Nat.pow_eq, Nat.pow_zero, Nat.mul_one, Nat.pow_succ]
    generalize 10 ^ (-(e + 1)).toNat = down
    generalize 4 * unitsPerOne = unit
    have hten : ∀ low, low * (down * 10) = low * down * 10 := fun low => (Nat.mul_assoc ..).symm
    have hx : d * 10 * unit = d * unit * 10 := by ring
    have hle : ∀ m n : Nat, (m * 10 ≤ n * 10) = (m ≤ n) := fun m n =>
      propext (Nat.mul_le_mul_right_iff (by decide))
    have hlt : ∀ m n : Nat, (m * 10 < n * 10) = (m < n) := fun m n =>
      propext (Nat.mul_lt_mul_right (by decide))
    simp only [hten, hx, hle, hlt]

theorem insideInterval_mul_pow (bounds : Nat × Nat × Bool) (d k : Nat) (e : Int) :
    insideInterval bounds ⟨d * 10 ^ k, e - k⟩ = insideInterval bounds ⟨d, e⟩ := by
  induction k with
  | zero => simp
  | succ k ih =>
      rw [Nat.pow_succ, ← Nat.mul_assoc, insideInterval_mul_ten, ← ih]
      congr 2
      omega

theorem insideInterval_dropZeros (bounds : Nat × Nat × Bool) (fuel d : Nat) (e : Int) :
    insideInterval bounds (dropZeros fuel d e) = insideInterval bounds ⟨d, e⟩ := by
  induction fuel generalizing d e with
  | zero => rfl
  | succ fuel ih =>
      unfold dropZeros
      split
      next hzero =>
        rw [ih, ← insideInterval_mul_ten, Nat.div_mul_cancel (Nat.dvd_of_mod_eq_zero hzero.1)]
      next => rfl

/-! ### How large a number is -/

theorem digitCount_eq {n : Nat} (hn : n ≠ 0) : digitCount n = (Nat.toDigits 10 n).length :=
  if_neg hn

/-- A positive number is at least the power of ten in front of the one that it is below. -/
theorem pow_decimalMagnitude_le {units : Nat} (hpos : 0 < units) :
    unitsPerOne * 10 ^ (decimalMagnitude units - 1).toNat
      ≤ units * 10 ^ (1 - decimalMagnitude units).toNat := by
  have hone := unitsPerOne_pos
  unfold decimalMagnitude
  generalize unitsPerOne = one at hone
  by_cases hlarge : one ≤ units
  · rw [if_pos hlarge]
    have hne : units / one ≠ 0 := Nat.ne_of_gt (Nat.div_pos hlarge hone)
    have hpow := pow_length_toDigits_le hne
    rw [digitCount_eq hne]
    have hlength := length_toDigits_pos (units / one)
    generalize (Nat.toDigits 10 (units / one)).length = length at hpow hlength
    have hup : ((length : Int) - 1).toNat = length - 1 := by omega
    have hdown : (1 - (length : Int)).toNat = 0 := by omega
    rw [hup, hdown, Nat.pow_zero, Nat.mul_one]
    exact (Nat.mul_le_mul_left one hpow).trans (Nat.mul_div_le units one)
  · rw [if_neg hlarge]
    have hceil : one ≤ units * ((one + units - 1) / units) := by
      have hlt := Nat.lt_mul_div_succ (one + units - 1) hpos
      rw [Nat.mul_add, Nat.mul_one] at hlt
      omega
    have hne : (one + units - 1) / units - 1 ≠ 0 := by
      have htwo : 2 ≤ (one + units - 1) / units := (Nat.le_div_iff_mul_le hpos).mpr (by omega)
      omega
    have hpow := lt_pow_length_toDigits ((one + units - 1) / units - 1)
    rw [digitCount_eq hne]
    generalize (Nat.toDigits 10 ((one + units - 1) / units - 1)).length = length at hpow
    have hup : (1 - (length : Int) - 1).toNat = 0 := by omega
    have hdown : (1 - (1 - (length : Int))).toNat = length := by omega
    rw [hup, hdown, Nat.pow_zero, Nat.mul_one]
    exact hceil.trans (Nat.mul_le_mul_left units (by omega))

/-- One of the last of seventeen digits is at most the 10 ^ 16th part of the number. -/
theorem pow_ten_of_magnitude {units : Nat} (hpos : 0 < units) :
    unitsPerOne * 10 ^ (decimalMagnitude units - 17).toNat * 10 ^ 16
      ≤ units * 10 ^ (-(decimalMagnitude units - 17)).toNat := by
  have hmagnitude := pow_decimalMagnitude_le hpos
  generalize decimalMagnitude units = magnitude at hmagnitude
  obtain ⟨more, hup, hdown⟩ : ∃ more,
      (magnitude - 17).toNat + 16 = (magnitude - 1).toNat + more
        ∧ (-(magnitude - 17)).toNat = (1 - magnitude).toNat + more :=
    ⟨(magnitude - 17).toNat + 16 - (magnitude - 1).toNat, by omega, by omega⟩
  calc unitsPerOne * 10 ^ (magnitude - 17).toNat * 10 ^ 16
      = unitsPerOne * 10 ^ (magnitude - 1).toNat * 10 ^ more := by
        rw [Nat.mul_assoc, ← Nat.pow_add, hup, Nat.pow_add, Nat.mul_assoc]
    _ ≤ units * 10 ^ (1 - magnitude).toNat * 10 ^ more := Nat.mul_le_mul_right _ hmagnitude
    _ = units * 10 ^ (-(magnitude - 17)).toNat := by rw [hdown, Nat.pow_add, Nat.mul_assoc]

/-! ### A neighbour in the interval -/

/-- The interval is wider than the 10 ^ 16th part of the number. -/
theorem lt_below (units : Nat) : 2 * units < 10 ^ 16 * below units := by
  have hstep : 0 < 2 ^ spareBits units := Nat.pow_pos (by decide)
  unfold below
  simp only [Nat.pow_eq]
  split
  next htop =>
    have hlt := Nat.lt_mul_div_succ units hstep
    rw [htop.1] at hlt
    generalize 2 ^ spareBits units = step at hstep hlt
    omega
  next =>
    have hlt : units < 2 ^ 53 * 2 ^ spareBits units := by
      rw [← Nat.pow_add]
      exact lt_pow_spareBits units
    generalize 2 ^ spareBits units = step at hstep hlt
    omega

/-- What is at most half a unit of its last place away is inside, if that place is low enough. -/
theorem between_of_near {units one up down near : Nat} (hden : 0 < one * up) (hdown : 0 < down)
    (hten : one * up * 10 ^ 16 ≤ units * down)
    (hnear : 2 * (near * (one * up)) ≤ 2 * (units * down) + one * up
      ∧ 2 * (units * down) ≤ 2 * (near * (one * up)) + one * up) :
    (4 * units - below units) * down < near * up * (4 * one)
      ∧ near * up * (4 * one) < (4 * units + 2 * 2 ^ spareBits units) * down := by
  have hx : near * up * (4 * one) = 4 * (near * (one * up)) := by ring
  have hless : 2 * (one * up) < below units * down := by
    refine Nat.lt_of_mul_lt_mul_left (a := 10 ^ 16) ?_
    calc 10 ^ 16 * (2 * (one * up)) = 2 * (one * up * 10 ^ 16) := by ring
      _ ≤ 2 * (units * down) := Nat.mul_le_mul_left 2 hten
      _ = 2 * units * down := (Nat.mul_assoc ..).symm
      _ < 10 ^ 16 * below units * down := Nat.mul_lt_mul_of_pos_right (lt_below units) hdown
      _ = 10 ^ 16 * (below units * down) := Nat.mul_assoc ..
  have hwide : below units * down ≤ 2 * 2 ^ spareBits units * down :=
    Nat.mul_le_mul_right down (below_le units)
  rw [hx, Nat.sub_mul, Nat.add_mul, Nat.mul_assoc 4]
  omega

/-- Of seventeen digits, the nearest ones lie in the interval. -/
theorem insideInterval_nearest {units : Nat} (hpos : 0 < units) :
    ∃ d ∈ neighbours units 17, insideInterval (readBackInterval units) d = true := by
  refine ⟨_, List.mem_cons_self, ?_⟩
  have hden : 0 < unitsPerOne * Nat.pow 10 (decimalMagnitude units - 17).toNat :=
    Nat.mul_pos (by decide +kernel) (Nat.pow_pos (by decide))
  obtain ⟨hlow, hhigh⟩ := between_of_near hden (Nat.pow_pos (by decide)) (pow_ten_of_magnitude hpos)
    (roundDiv_near (units * Nat.pow 10 (-(decimalMagnitude units - 17)).toNat) _ hden)
  rw [readBackInterval_eq]
  unfold insideInterval
  dsimp only
  split
  next => exact Bool.and_eq_true _ _ ▸ ⟨decide_eq_true hlow.le, decide_eq_true hhigh.le⟩
  next => exact Bool.and_eq_true _ _ ▸ ⟨decide_eq_true hlow, decide_eq_true hhigh⟩

/-- The shortest decimal of a positive number lies in its interval. -/
theorem insideInterval_shortest {units : Nat} (hpos : 0 < units) :
    insideInterval (readBackInterval units) (shortest units) = true := by
  obtain ⟨d, hd, hinside⟩ := insideInterval_nearest hpos
  have hmem : d ∈ (List.range 17).flatMap fun n => neighbours units (n + 1) :=
    List.mem_flatMap.mpr ⟨16, by decide, hd⟩
  unfold shortest
  dsimp only
  cases hfind : List.find? (insideInterval (readBackInterval units))
      ((List.range 17).flatMap fun n => neighbours units (n + 1)) with
  | none => exact absurd hinside (List.find?_eq_none.mp hfind d hmem)
  | some found =>
      dsimp only
      rw [insideInterval_dropZeros]
      exact List.find?_some hfind

/-- **The shortest decimal** is read as its number. -/
theorem ofDecimal_shortest (negative : Bool) {units : Nat} (hunits : IsUnits units) (hpos : 0 < units) :
    ofDecimal negative (shortest units).digits (shortest units).exponent = .finite negative units :=
  ofDecimal_of_inside negative hunits hpos (insideInterval_shortest hpos)

/-- A word for the shortest decimal is read as the number, also with zeros behind its digits. -/
theorem ofDecimal_of_names (negative : Bool) {units : Nat} (hunits : IsUnits units) (hpos : 0 < units)
    {w : FractionWord} (hw : w.Names (shortest units)) :
    ofDecimal negative (digitsNumber (w.whole ++ w.fraction)) (w.exponent - w.fraction.length)
      = .finite negative units := by
  obtain ⟨zeros, hdigits, hexponent⟩ := hw
  rw [hdigits, hexponent]
  refine ofDecimal_of_inside (d := ⟨(shortest units).digits * 10 ^ zeros, _⟩) negative hunits hpos ?_
  rw [insideInterval_mul_pow]
  exact insideInterval_shortest hpos

end ApiClientGen.Number.Binary64
