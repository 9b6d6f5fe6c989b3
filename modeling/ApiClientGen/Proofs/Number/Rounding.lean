/-
Decimals that are read as a number.

Between two neighbours of the format lies the middle, from which a decimal is read as the one that
is even; everything nearer to a number is read as that number.  Below a power of two the neighbours
are closer, so the interval that is read as such a number reaches less far down than up.  That the
text of a number is looked for in this interval (`readBackInterval`) is right if rounding, which
does not know the interval, comes to the number from everywhere in it (`ofDecimal_of_inside`).

Rounding works with the step of the quotient that it is given.  Inside of the interval this is the
step of the number, but for one case: below a power of two it is half of that, and the number is
twice as many steps.
-/
import Mathlib.Algebra.Order.Ring.Nat
import Mathlib.Tactic.Ring
import ApiClientGen.Proofs.Number.Texts

namespace ApiClientGen.Number

/-- A quotient is rounded to what is at most half away; to what is just half away, if that is even. -/
theorem roundDiv_eq {num den m : Nat} (hlow : 2 * (m * den) ≤ 2 * num + den)
    (hhigh : 2 * num ≤ 2 * (m * den) + den)
    (heven : m % 2 = 0 ∨ 2 * (m * den) < 2 * num + den ∧ 2 * num < 2 * (m * den) + den)
    (hden : 0 < den) : roundDiv num den = m := by
  have hdiv := Nat.div_add_mod' num den
  have hmod := Nat.mod_lt num hden
  unfold roundDiv
  dsimp only
  generalize num / den = q at hdiv
  generalize num % den = r at hdiv hmod
  have hcases : m = q ∨ m = q + 1 := by
    by_contra hne
    rcases Nat.lt_or_ge m q with hlt | hge
    · have hmul : (m + 1) * den ≤ q * den := Nat.mul_le_mul_right den hlt
      rw [Nat.add_mul, Nat.one_mul] at hmul
      omega
    · have hmul : (q + 2) * den ≤ m * den := Nat.mul_le_mul_right den (by omega)
      rw [Nat.add_mul] at hmul
      omega
  rcases hcases with rfl | rfl
  · rw [if_neg (by omega)]
    split <;> omega
  · rw [Nat.add_mul, Nat.one_mul] at hlow hhigh heven
    split
    · rfl
    · split <;> omega

theorem length_toDigits_pos (n : Nat) : 0 < (Nat.toDigits 10 n).length :=
  List.length_pos_iff.mpr Nat.toDigits_ne_nil

theorem lt_pow_length_toDigits (n : Nat) : n < 10 ^ (Nat.toDigits 10 n).length :=
  (Nat.length_toDigits_le_iff (by decide) (length_toDigits_pos n)).mp (Nat.le_refl _)

theorem pow_length_toDigits_le {n : Nat} (hn : n ≠ 0) : 10 ^ ((Nat.toDigits 10 n).length - 1) ≤ n := by
  have hpos := length_toDigits_pos n
  by_cases hone : (Nat.toDigits 10 n).length = 1
  · rw [hone]
    exact Nat.pos_of_ne_zero hn
  · by_contra hlt
    have hle := (Nat.length_toDigits_le_iff (b := 10) (by decide) (by omega)).mpr (Nat.lt_of_not_le hlt)
    omega

namespace Binary64

/-- So many units a number of the format can have: whole steps, and not too many. -/
def IsUnits (units : Nat) : Prop := Nat.pow 2 (spareBits units) ∣ units ∧ units < Nat.pow 2 2098

instance (units : Nat) : Decidable (IsUnits units) := inferInstanceAs (Decidable (_ ∧ _))

/-- A number that the format has. -/
inductive IsNumber : Binary64 → Prop
  | nan : IsNumber .nan
  | infinite (negative : Bool) : IsNumber (.infinite negative)
  | finite (negative : Bool) {units : Nat} (h : IsUnits units) : IsNumber (.finite negative units)

theorem isNumber_finite_iff {negative : Bool} {units : Nat} :
    IsNumber (.finite negative units) ↔ IsUnits units :=
  ⟨fun h => by cases h with | finite _ hunits => exact hunits, .finite negative⟩

instance : DecidablePred IsNumber
  | .nan => isTrue .nan
  | .infinite negative => isTrue (.infinite negative)
  | .finite _ _ => decidable_of_iff _ isNumber_finite_iff.symm

theorem spareBits_of_bounds {n k : Nat} (hlow : 2 ^ k ≤ n) (hhigh : n < 2 ^ (k + 1)) :
    spareBits n = k + 1 - 53 := by
  have hpos : n ≠ 0 := by
    have := Nat.pow_pos (a := 2) (n := k) (by decide)
    omega
  rw [spareBits, (Nat.log2_eq_iff hpos).mpr ⟨hlow, hhigh⟩]

/-- Without spare bits a number has less than 2 ^ 53 units. -/
theorem spareBits_eq_zero_iff {n : Nat} : spareBits n = 0 ↔ n < 2 ^ 53 := by
  rcases Nat.eq_zero_or_pos n with rfl | hpos
  · simp [spareBits]
  · rw [spareBits, ← Nat.log2_lt (by omega)]
    omega

/-- A number with spare bits: its leading bits, and the step that they count. -/
theorem exists_lead {units : Nat} (hunits : IsUnits units) (hspare : 0 < spareBits units) :
    ∃ lead, units = lead * 2 ^ spareBits units ∧ 2 ^ 52 ≤ lead ∧ lead < 2 ^ 53 := by
  obtain ⟨lead, hlead⟩ := hunits.1
  have hne : units ≠ 0 := by
    rintro rfl
    simp [spareBits] at hspare
  have hlow := Nat.log2_self_le hne
  have hhigh := Nat.lt_log2_self (n := units)
  have hlog : Nat.log2 units = 52 + spareBits units := by
    unfold spareBits at hspare ⊢
    omega
  refine ⟨lead, by rw [Nat.mul_comm]; exact hlead, ?_, ?_⟩
  all_goals
    rw [hlog] at hlow hhigh
    generalize spareBits units = spare at *
    have hpos : 0 < 2 ^ spare := Nat.pow_pos (by decide)
    rw [hlead] at hlow hhigh
  · rw [Nat.pow_add, Nat.mul_comm] at hlow
    exact Nat.le_of_mul_le_mul_left hlow hpos
  · rw [Nat.add_right_comm, Nat.pow_add, Nat.mul_comm (2 ^ (52 + 1))] at hhigh
    exact Nat.lt_of_mul_lt_mul_left hhigh

/-- How far the interval of a number reaches down, in quarter units. -/
def below (units : Nat) : Nat :=
  if units / Nat.pow 2 (spareBits units) = Nat.pow 2 52 ∧ 0 < spareBits units then
    Nat.pow 2 (spareBits units)
  else 2 * Nat.pow 2 (spareBits units)

theorem readBackInterval_eq (units : Nat) :
    readBackInterval units
      = (4 * units - below units, 4 * units + 2 * Nat.pow 2 (spareBits units),
        units / Nat.pow 2 (spareBits units) % 2 == 0) :=
  rfl

theorem below_le (units : Nat) : below units ≤ 2 * Nat.pow 2 (spareBits units) := by
  unfold below
  split <;> omega

/-- A quotient, in units, that lies in the interval that is read as a number. -/
structure IsNear (units num den : Nat) : Prop where
  low : (readBackInterval units).1 * den ≤ 4 * num
  high : 4 * num ≤ (readBackInterval units).2.1 * den
  inner : (readBackInterval units).2.2 = true
    ∨ (readBackInterval units).1 * den < 4 * num ∧ 4 * num < (readBackInterval units).2.1 * den

/-- The number is so many steps of the quotient, which is at most half a step away. -/
def IsRounded (num den step m : Nat) : Prop :=
  2 * (m * (den * step)) ≤ 2 * num + den * step
    ∧ 2 * num ≤ 2 * (m * (den * step)) + den * step
    ∧ (m % 2 = 0 ∨ 2 * (m * (den * step)) < 2 * num + den * step
      ∧ 2 * num < 2 * (m * (den * step)) + den * step)

section

variable {units num den : Nat}

/-- A number without spare bits is counted in single units, and so are the quotients near it. -/
theorem IsNear.isRounded_of_small (h : IsNear units num den) (hpos : 0 < units)
    (hspare : spareBits units = 0) (hden : 0 < den) :
    spareBits (num / den) = 0 ∧ IsRounded num den 1 units := by
  obtain ⟨hlow, hhigh, hinner⟩ := h
  have hsmall := spareBits_eq_zero_iff.mp hspare
  simp only [readBackInterval, hspare, Nat.lt_irrefl, and_false, if_false, Nat.pow_zero, Nat.div_one,
    beq_iff_eq, Nat.mul_one, Nat.pow_eq] at hlow hhigh hinner
  rw [Nat.sub_mul, Nat.mul_assoc] at hlow hinner
  rw [Nat.add_mul, Nat.mul_assoc] at hhigh hinner
  have hle : den ≤ units * den := Nat.le_mul_of_pos_left den hpos
  constructor
  · rw [spareBits_eq_zero_iff]
    refine Nat.lt_of_le_of_lt ?_ hsmall
    refine Nat.le_of_lt_succ ((Nat.div_lt_iff_lt_mul hden).mpr ?_)
    rw [Nat.succ_mul]
    omega
  · rw [IsRounded, Nat.mul_one]
    omega

/-- The interval of a number with spare bits. -/
theorem readBackInterval_of_lead {lead spare : Nat} (hspare : spareBits units = spare)
    (hpos : 0 < spare) (hlead : units = lead * 2 ^ spare) :
    readBackInterval units
      = (4 * units - (if lead = 2 ^ 52 then 2 ^ spare else 2 * 2 ^ spare),
        4 * units + 2 * 2 ^ spare, lead % 2 == 0) := by
  have hdiv : units / 2 ^ spare = lead := by
    rw [hlead, Nat.mul_div_cancel lead (Nat.pow_pos (by decide))]
  simp only [readBackInterval_eq, below, hspare, Nat.pow_eq, hdiv, hpos, and_true]

/-- What is near a number with spare bits, with the denominator multiplied away. -/
theorem IsNear.of_lead {lead spare : Nat} (h : IsNear units num den) (hspare : spareBits units = spare)
    (hpos : 0 < spare) (hlead : units = lead * 2 ^ spare) :
    4 * num ≤ 4 * (lead * (den * 2 ^ spare)) + 2 * (den * 2 ^ spare)
      ∧ 4 * (lead * (den * 2 ^ spare))
        ≤ 4 * num + (if lead = 2 ^ 52 then 1 else 2) * (den * 2 ^ spare)
      ∧ (lead % 2 = 0
        ∨ 4 * num < 4 * (lead * (den * 2 ^ spare)) + 2 * (den * 2 ^ spare)
          ∧ 4 * (lead * (den * 2 ^ spare)) < 4 * num + 2 * (den * 2 ^ spare)) := by
  obtain ⟨hlow, hhigh, hinner⟩ := h
  rw [readBackInterval_of_lead hspare hpos hlead] at hlow hhigh hinner
  have hunits : 4 * units * den = 4 * (lead * (den * 2 ^ spare)) := by
    rw [hlead]
    ring
  have hup : 2 * 2 ^ spare * den = 2 * (den * 2 ^ spare) := by ring
  have hdown : (if lead = 2 ^ 52 then 2 ^ spare else 2 * 2 ^ spare) * den
      = (if lead = 2 ^ 52 then 1 else 2) * (den * 2 ^ spare) := by
    split <;> ring
  simp only [Nat.sub_mul, Nat.add_mul, hunits, hup, hdown, beq_iff_eq] at hlow hhigh hinner
  refine ⟨hhigh, by omega, hinner.imp_right fun hstrict => ⟨hstrict.2, ?_⟩⟩
  have hle : (if lead = 2 ^ 52 then 1 else 2) * (den * 2 ^ spare) ≤ 2 * (den * 2 ^ spare) :=
    Nat.mul_le_mul_right _ (by split <;> omega)
  omega

/-- A quotient that is not below the power of two is counted in the steps of the number. -/
theorem IsNear.isRounded_of_above {lead spare : Nat} (h : IsNear units num den)
    (hspare : spareBits units = spare) (hpos : 0 < spare) (hlead : units = lead * 2 ^ spare)
    (hhead : lead < 2 ^ 53) (hden : 0 < den) (habove : 2 ^ 52 * (den * 2 ^ spare) ≤ num) :
    spareBits (num / den) = spare ∧ IsRounded num den (2 ^ spare) lead := by
  obtain ⟨hhigh, hlow, hinner⟩ := h.of_lead hspare hpos hlead
  have hle : (if lead = 2 ^ 52 then 1 else 2) * (den * 2 ^ spare) ≤ 2 * (den * 2 ^ spare) :=
    Nat.mul_le_mul_right _ (by split <;> omega)
  constructor
  · have hbounds : 2 ^ (52 + spare) ≤ num / den ∧ num / den < 2 ^ (52 + spare + 1) := by
      rw [Nat.le_div_iff_mul_le hden, Nat.div_lt_iff_lt_mul hden]
      have hfirst : 2 ^ (52 + spare) * den = 2 ^ 52 * (den * 2 ^ spare) := by ring
      have hsecond : 2 ^ (52 + spare + 1) * den = 2 ^ 53 * (den * 2 ^ spare) := by ring
      have hsucc : (lead + 1) * (den * 2 ^ spare) ≤ 2 ^ 53 * (den * 2 ^ spare) :=
        Nat.mul_le_mul_right _ (Nat.succ_le_of_lt hhead)
      have hwidth : 0 < den * 2 ^ spare := Nat.mul_pos hden (Nat.pow_pos (by decide))
      rw [hfirst, hsecond]
      rw [Nat.add_mul, Nat.one_mul] at hsucc
      exact ⟨habove, by omega⟩
    rw [spareBits_of_bounds hbounds.1 hbounds.2]
    omega
  · unfold IsRounded
    omega

/--
A quotient below the power of two is counted in half the steps; only the number that is this power
is near it.
-/
theorem IsNear.isRounded_of_below {lead spare : Nat} (h : IsNear units num den)
    (hspare : spareBits units = spare + 1) (hlead : units = lead * 2 ^ (spare + 1))
    (hhead : 2 ^ 52 ≤ lead) (hden : 0 < den) (hbelow : num < 2 ^ 52 * (den * 2 ^ (spare + 1))) :
    spareBits (num / den) = spare ∧ IsRounded num den (2 ^ spare) (2 * lead) := by
  obtain ⟨-, hlow, -⟩ := h.of_lead hspare (Nat.succ_pos spare) hlead
  have hdouble : ∀ k, k * (den * 2 ^ (spare + 1)) = 2 * (k * (den * 2 ^ spare)) := by
    intro k
    ring
  have hwidth : 0 < den * 2 ^ spare := Nat.mul_pos hden (Nat.pow_pos (by decide))
  rw [hdouble] at hbelow
  rw [hdouble, hdouble] at hlow
  have htop : lead = 2 ^ 52 := by
    by_contra hne
    have hle : 2 ^ 52 + 1 ≤ lead := by omega
    have hsucc := Nat.mul_le_mul_right (den * 2 ^ spare) hle
    rw [if_neg hne] at hlow
    rw [Nat.add_mul, Nat.one_mul] at hsucc
    omega
  rw [if_pos htop, Nat.one_mul] at hlow
  rw [← htop] at hbelow
  constructor
  · have hbounds : 2 ^ (52 + spare) ≤ num / den ∧ num / den < 2 ^ (52 + spare + 1) := by
      rw [Nat.le_div_iff_mul_le hden, Nat.div_lt_iff_lt_mul hden]
      have hfirst : 2 ^ (52 + spare) * den = lead * (den * 2 ^ spare) := by
        rw [htop]
        ring
      have hsecond : 2 ^ (52 + spare + 1) * den = 2 * (lead * (den * 2 ^ spare)) := by
        rw [htop]
        ring
      have hlead := Nat.le_mul_of_pos_left (den * 2 ^ spare) (by omega : 0 < lead)
      rw [hfirst, hsecond]
      omega
    rw [spareBits_of_bounds hbounds.1 hbounds.2]
    omega
  · rw [IsRounded, Nat.mul_assoc 2 lead]
    omega

/-- Near a number, the number is whole steps of the quotient. -/
theorem IsNear.exists_isRounded (h : IsNear units num den) (hunits : IsUnits units) (hpos : 0 < units)
    (hden : 0 < den) :
    ∃ m, units = m * 2 ^ spareBits (num / den)
      ∧ IsRounded num den (2 ^ spareBits (num / den)) m := by
  cases hspare : spareBits units with
  | zero =>
      obtain ⟨hzero, hrounded⟩ := h.isRounded_of_small hpos hspare hden
      rw [hzero]
      exact ⟨units, (Nat.mul_one units).symm, hrounded⟩
  | succ spare =>
      obtain ⟨lead, hlead, hle, hlt⟩ := exists_lead hunits (by omega)
      rw [hspare] at hlead
      by_cases habove : 2 ^ 52 * (den * 2 ^ (spare + 1)) ≤ num
      · obtain ⟨hsame, hrounded⟩ :=
          h.isRounded_of_above hspare (Nat.succ_pos spare) hlead hlt hden habove
        rw [hsame]
        exact ⟨lead, hlead, hrounded⟩
      · obtain ⟨hhalf, hrounded⟩ :=
          h.isRounded_of_below hspare hlead hle hden (Nat.lt_of_not_le habove)
        rw [hhalf]
        exact ⟨2 * lead, by rw [hlead]; ring, hrounded⟩

end

/-- **Rounding** comes to a number from everywhere in its interval. -/
theorem ofQuotient_of_isNear (negative : Bool) {units num den : Nat}
    (h : IsNear units (num * unitsPerOne) den) (hunits : IsUnits units) (hpos : 0 < units)
    (hden : 0 < den) : ofQuotient negative num den = .finite negative units := by
  obtain ⟨m, hm, hlow, hhigh, heven⟩ := h.exists_isRounded hunits hpos hden
  have hround : roundDiv (num * unitsPerOne)
      (den * Nat.pow 2 (spareBits (num * unitsPerOne / den))) = m :=
    roundDiv_eq hlow hhigh heven (Nat.mul_pos hden (Nat.pow_pos (by decide)))
  have hback : m * Nat.pow 2 (spareBits (num * unitsPerOne / den)) = units := hm.symm
  unfold ofQuotient
  dsimp only
  rw [hround, hback, if_neg (Nat.not_le.mpr hunits.2)]

/-! ### Numbers that are read -/

theorem lt_pow_spareBits (n : Nat) : n < 2 ^ (53 + spareBits n) := by
  refine Nat.lt_of_lt_of_le Nat.lt_log2_self (Nat.pow_le_pow_right (by decide) ?_)
  unfold spareBits
  omega

/-- So many steps are whole steps of the number that they make, also if they fill one more bit. -/
theorem pow_spareBits_dvd {m spare : Nat} (hm : m ≤ 2 ^ 53) :
    2 ^ spareBits (m * 2 ^ spare) ∣ m * 2 ^ spare := by
  rcases Nat.lt_or_eq_of_le hm with hlt | rfl
  · refine (Nat.pow_dvd_pow 2 ?_).trans (Nat.dvd_mul_left (2 ^ spare) m)
    rcases Nat.eq_zero_or_pos (m * 2 ^ spare) with hzero | hpos
    · rw [hzero]
      exact Nat.zero_le _
    · have hlog : Nat.log2 (m * 2 ^ spare) < 53 + spare := by
        rw [Nat.log2_lt (Nat.ne_of_gt hpos), Nat.pow_add]
        exact Nat.mul_lt_mul_of_pos_right hlt (Nat.pow_pos (by decide))
      unfold spareBits
      omega
  · rw [← Nat.pow_add]
    refine Nat.pow_dvd_pow 2 ?_
    unfold spareBits
    rw [Nat.log2_two_pow]
    omega

theorem roundDiv_le (num den : Nat) : roundDiv num den ≤ num / den + 1 := by
  unfold roundDiv
  dsimp only
  repeat' split
  all_goals omega

theorem isNumber_of_dvd (negative : Bool) {units limit : Nat} (hlimit : limit = Nat.pow 2 2098)
    (h : 2 ^ spareBits units ∣ units) :
    (if limit ≤ units then infinite negative else finite negative units).IsNumber := by
  by_cases hlarge : limit ≤ units
  · rw [if_pos hlarge]
    exact .infinite negative
  · rw [if_neg hlarge]
    exact .finite negative ⟨h, hlimit ▸ Nat.lt_of_not_le hlarge⟩

/-- Rounding comes to a number of the format. -/
theorem isNumber_ofQuotient (negative : Bool) (num : Nat) {den : Nat} (hden : 0 < den) :
    (ofQuotient negative num den).IsNumber := by
  unfold ofQuotient
  dsimp only
  generalize hlimit : Nat.pow 2 2098 = limit
  refine isNumber_of_dvd negative hlimit.symm (pow_spareBits_dvd ?_)
  refine (roundDiv_le _ _).trans (Nat.succ_le_of_lt ?_)
  have hstep : 0 < den * Nat.pow 2 (spareBits (num * unitsPerOne / den)) :=
    Nat.mul_pos hden (Nat.pow_pos (by decide))
  rw [Nat.div_lt_iff_lt_mul hstep]
  have hlt := (Nat.div_lt_iff_lt_mul hden).mp (lt_pow_spareBits (num * unitsPerOne / den))
  rw [Nat.pow_add] at hlt
  calc num * unitsPerOne < 2 ^ 53 * 2 ^ spareBits (num * unitsPerOne / den) * den := hlt
    _ = 2 ^ 53 * (den * 2 ^ spareBits (num * unitsPerOne / den)) := by ring

theorem isUnits_zero : IsUnits 0 := ⟨Nat.dvd_zero _, by decide +kernel⟩

/-- Every decimal is read as a number of the format. -/
theorem isNumber_ofDecimal (negative : Bool) (digits : Nat) (exponent : Int) :
    (ofDecimal negative digits exponent).IsNumber := by
  unfold ofDecimal
  dsimp only
  repeat' split
  · exact .finite negative isUnits_zero
  · exact .infinite negative
  · exact .finite negative isUnits_zero
  · exact isNumber_ofQuotient negative _ Nat.one_pos
  · exact isNumber_ofQuotient negative _ (Nat.pow_pos (by decide))

theorem unitsPerOne_pos : 0 < unitsPerOne := by decide +kernel

theorem isNumber_neg {x : Binary64} (h : x.IsNumber) : x.neg.IsNumber := by
  cases h with
  | nan => exact .nan
  | infinite negative => exact .infinite _
  | finite negative hunits => exact .finite _ hunits

theorem isNumber_mulNat {x : Binary64} (h : x.IsNumber) (k : Nat) : (x.mulNat k).IsNumber := by
  cases h with
  | nan => exact .nan
  | infinite negative =>
      show (if k = 0 then nan else infinite negative).IsNumber
      split
      · exact .nan
      · exact .infinite negative
  | @finite negative units hunits =>
      show (if units * k = 0 then finite negative 0
        else ofQuotient negative (units * k) unitsPerOne).IsNumber
      split
      · exact .finite negative isUnits_zero
      · exact isNumber_ofQuotient negative _ unitsPerOne_pos

theorem isNumber_ofUnits (zeroSign : Bool) (units : Int) : (ofUnits zeroSign units).IsNumber := by
  unfold ofUnits
  split
  · exact .finite zeroSign isUnits_zero
  · exact isNumber_ofQuotient _ _ unitsPerOne_pos

theorem isNumber_add {x y : Binary64} (hx : x.IsNumber) (hy : y.IsNumber) : (x.add y).IsNumber := by
  cases hx with
  | nan => exact .nan
  | infinite negative =>
      cases hy with
      | nan => exact .nan
      | infinite negative' =>
          show (if negative = negative' then infinite negative else nan).IsNumber
          split
          · exact .infinite negative
          · exact .nan
      | finite => exact .infinite negative
  | finite negative =>
      cases hy with
      | nan => exact .nan
      | infinite negative' => exact .infinite negative'
      | finite => exact isNumber_ofUnits _ _

/-- Every word for a fractional number stands for one of the format. -/
theorem isNumber_readFraction? {text : List Char} {x : Binary64} (h : readFraction? text = some x) :
    x.IsNumber := by
  unfold readFraction? at h
  dsimp only at h
  split at h
  · cases h
    exact .infinite _
  split at h
  · cases h
    exact .nan
  -- What is left of the reader are its questions, and the decimal that it comes to.
  obtain ⟨wholeDigits, -, h⟩ := Option.bind_eq_some_iff.mp h
  obtain ⟨fractionDigits, -, h⟩ := Option.bind_eq_some_iff.mp h
  split at h
  · cases h
  obtain ⟨exponent, -, h⟩ := Option.bind_eq_some_iff.mp h
  cases h
  exact isNumber_ofDecimal ..

/-! ### Decimals -/

section

variable {units : Nat} {d : Decimal}

/-- Whether a decimal is in the interval, with its power of ten above or below the line. -/
theorem isNear_of_insideInterval (h : insideInterval (readBackInterval units) d = true) :
    IsNear units (d.digits * Nat.pow 10 d.exponent.toNat * unitsPerOne)
      (Nat.pow 10 (-d.exponent).toNat) := by
  unfold insideInterval at h
  dsimp only at h
  have hnum : d.digits * Nat.pow 10 d.exponent.toNat * (4 * unitsPerOne)
      = 4 * (d.digits * Nat.pow 10 d.exponent.toNat * unitsPerOne) := by ring
  rw [hnum] at h
  split at h
  next hclosed =>
    rw [Bool.and_eq_true, decide_eq_true_eq, decide_eq_true_eq] at h
    exact ⟨h.1, h.2, .inl hclosed⟩
  next hopen =>
    rw [Bool.and_eq_true, decide_eq_true_eq, decide_eq_true_eq] at h
    exact ⟨h.1.le, h.2.le, .inr h⟩

/-- The interval of a number reaches from half of it to three halves. -/
theorem IsNear.bounds {num den : Nat} (h : IsNear units num den) (hpos : 0 < units) :
    units * den ≤ 2 * num ∧ 2 * num ≤ 3 * (units * den) := by
  have hstep := Nat.mul_le_mul_right den (pow_spareBits_le hpos)
  obtain ⟨hlow, hhigh, -⟩ := h
  simp only [readBackInterval_eq] at hlow hhigh
  have hbelow := Nat.mul_le_mul_right den (below_le units)
  rw [Nat.mul_assoc 2] at hbelow
  rw [Nat.sub_mul, Nat.mul_assoc] at hlow
  rw [Nat.add_mul, Nat.mul_assoc, Nat.mul_assoc] at hhigh
  omega

/-- What is near a number has its first digit where rounding looks at the digits at all. -/
theorem top_of_isNear (h : IsNear units (d.digits * Nat.pow 10 d.exponent.toNat * unitsPerOne)
      (Nat.pow 10 (-d.exponent).toNat)) (hunits : IsUnits units) (hpos : 0 < units) :
    d.digits ≠ 0 ∧ ((Nat.toDigits 10 d.digits).length : Int) + d.exponent ≤ 310
      ∧ -330 ≤ ((Nat.toDigits 10 d.digits).length : Int) + d.exponent := by
  obtain ⟨hlow, hhigh⟩ := h.bounds hpos
  have hlimit := hunits.2
  have hzero : d.digits ≠ 0 := by
    intro hzero
    rw [hzero, Nat.zero_mul, Nat.zero_mul] at hlow
    exact absurd hlow (Nat.not_le.mpr (Nat.mul_pos hpos (Nat.pow_pos (by decide))))
  have hfirst := pow_length_toDigits_le hzero
  have hlast := lt_pow_length_toDigits d.digits
  simp only [Nat.pow_eq] at hlow hhigh
  generalize (Nat.toDigits 10 d.digits).length = length at *
  -- Both bounds are compared as powers of ten.
  have htop : length - 1 + d.exponent.toNat ≤ 309 + (-d.exponent).toNat := by
    have hconstant : 3 * Nat.pow 2 2098 ≤ 2 * unitsPerOne * 10 ^ 309 := by decide +kernel
    have hunit : 0 < 2 * unitsPerOne := by decide +kernel
    generalize Nat.pow 2 2098 = limit at hlimit hconstant
    refine (Nat.pow_le_pow_iff_right (a := 10) (by decide)).mp ?_
    refine Nat.le_of_mul_le_mul_left ?_ hunit
    calc 2 * unitsPerOne * 10 ^ (length - 1 + d.exponent.toNat)
        = 2 * (10 ^ (length - 1) * 10 ^ d.exponent.toNat * unitsPerOne) := by ring
      _ ≤ 2 * (d.digits * 10 ^ d.exponent.toNat * unitsPerOne) :=
          Nat.mul_le_mul_left 2 (Nat.mul_le_mul_right _ (Nat.mul_le_mul_right _ hfirst))
      _ ≤ 3 * (units * 10 ^ (-d.exponent).toNat) := hhigh
      _ ≤ 3 * (limit * 10 ^ (-d.exponent).toNat) :=
          Nat.mul_le_mul_left 3 (Nat.mul_le_mul_right _ hlimit.le)
      _ = 3 * limit * 10 ^ (-d.exponent).toNat := (Nat.mul_assoc ..).symm
      _ ≤ 2 * unitsPerOne * 10 ^ 309 * 10 ^ (-d.exponent).toNat := Nat.mul_le_mul_right _ hconstant
      _ = 2 * unitsPerOne * 10 ^ (309 + (-d.exponent).toNat) := by rw [Nat.pow_add, Nat.mul_assoc]
  have hbottom : (-d.exponent).toNat ≤ length + d.exponent.toNat + 324 := by
    have hconstant : 2 * unitsPerOne ≤ 10 ^ 324 := by decide +kernel
    refine (Nat.pow_le_pow_iff_right (a := 10) (by decide)).mp ?_
    calc 10 ^ (-d.exponent).toNat
        ≤ units * 10 ^ (-d.exponent).toNat := Nat.le_mul_of_pos_left _ hpos
      _ ≤ 2 * (d.digits * 10 ^ d.exponent.toNat * unitsPerOne) := hlow
      _ = d.digits * 10 ^ d.exponent.toNat * (2 * unitsPerOne) := by ring
      _ ≤ 10 ^ length * 10 ^ d.exponent.toNat * 10 ^ 324 :=
          Nat.mul_le_mul (Nat.mul_le_mul_right _ hlast.le) hconstant
      _ = 10 ^ (length + d.exponent.toNat + 324) := by rw [Nat.pow_add, Nat.pow_add]
  exact ⟨hzero, by omega, by omega⟩

end

/-- **A decimal in the interval of a number** is read as the number. -/
theorem ofDecimal_of_inside (negative : Bool) {units : Nat} {d : Decimal} (hunits : IsUnits units)
    (hpos : 0 < units) (h : insideInterval (readBackInterval units) d = true) :
    ofDecimal negative d.digits d.exponent = .finite negative units := by
  have hnear := isNear_of_insideInterval h
  obtain ⟨hzero, htop, hbottom⟩ := top_of_isNear hnear hunits hpos
  unfold ofDecimal
  dsimp only
  rw [if_neg hzero, if_neg (Int.not_lt.mpr htop), if_neg (Int.not_lt.mpr hbottom)]
  by_cases hexponent : 0 ≤ d.exponent
  · rw [if_pos hexponent]
    have hdown : (-d.exponent).toNat = 0 := by omega
    rw [hdown] at hnear
    exact ofQuotient_of_isNear negative hnear hunits hpos Nat.one_pos
  · rw [if_neg hexponent]
    have hup : d.exponent.toNat = 0 := by omega
    rw [hup, Nat.pow_eq, Nat.pow_zero, Nat.mul_one] at hnear
    exact ofQuotient_of_isNear negative hnear hunits hpos (Nat.pow_pos (by decide))

end Binary64

end ApiClientGen.Number
