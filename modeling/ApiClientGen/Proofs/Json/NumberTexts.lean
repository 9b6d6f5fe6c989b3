/-
Numbers are read back from their texts.

The text of a finite number is that of its shortest decimal.  In three notations it has a point and
is a word for a fractional number; the fourth is that of a single digit with a power of ten, such as
`1e+16`.  What is read is the number nearest to the decimal that the digits and the power name, and
that is the number itself.
-/
import ApiClientGen.Proofs.Json.ReadBack
import ApiClientGen.Proofs.Number.ShortestDecimal

namespace ApiClientGen.Json

open ApiClientGen.Document ApiClientGen.Number

/-- A digit with a power of ten behind it is a number with a fraction. -/
theorem number_power (negative : Bool) {c : Char} (hc : c.isDigit = true) (minus : Bool)
    {power : List Char} (hpower : AreDigits power) {rest : List Char} (hrest : IsStop rest) :
    number (signed negative [c] ++ 'e' :: (if minus then '-' else '+') :: (power ++ rest))
      = .ok (.scalar (.float (.ofDecimal negative (digitsNumber [c])
          (if minus then -(digitsNumber power : Int) else digitsNumber power))), rest) := by
  have hdigits : AreWhole [c] :=
    ⟨⟨by simp, List.forall_mem_singleton.mpr hc⟩, fun h => by simpa using h⟩
  unfold number
  rw [takeMinus_signed negative hdigits.toAreDigits]
  dsimp only
  rw [wholePart_append hdigits (by rintro d ⟨⟩; decide)]
  dsimp only
  rw [fractionPart_of_head (by simp)]
  dsimp only
  rw [exponentPart_letter minus hpower hrest]
  simp [digitsNumber]

/-- A word for the shortest decimal is read as the number. -/
theorem number_word (negative : Bool) {units : Nat} (hunits : Binary64.IsUnits units) (hpos : 0 < units)
    {w : FractionWord} (hw : w.Names (Binary64.shortest units)) {rest : List Char}
    (hrest : IsStop rest) :
    number (signed negative w.body ++ rest)
      = .ok (.scalar (.float (.finite negative units)), rest) := by
  rw [← Binary64.ofDecimal_of_names negative hunits hpos hw]
  exact number_fraction { w with negative } hrest

/-- The text of a positive number, with or without a sign, is read as the number. -/
theorem number_decimalText (negative : Bool) {units : Nat} (hunits : Binary64.IsUnits units)
    (hpos : 0 < units) {rest : List Char} (hrest : IsStop rest) :
    number (signed negative (Binary64.decimalText (Binary64.shortest units)).toList ++ rest)
      = .ok (.scalar (.float (.finite negative units)), rest) := by
  by_cases hplace : -4 < Binary64.place (Binary64.shortest units)
      ∧ Binary64.place (Binary64.shortest units) ≤ 16
  · obtain ⟨w, htext, hw⟩ := Binary64.decimalText_positional hplace (Binary64.shortest_digits hpos)
    rw [htext]
    exact number_word negative hunits hpos hw hrest
  obtain ⟨first, tail, power, hdigits, hpower, hnumber, htext⟩ :=
    Binary64.decimalText_scientific hplace
  rw [htext]
  cases tail with
  | cons second tail =>
      obtain ⟨w, hbody, hw⟩ := Binary64.exists_scientificWord hdigits hpower hnumber
      have hread := number_word negative hunits hpos hw hrest
      rw [← hbody] at hread
      exact hread
  | nil =>
      have hfirst : first.isDigit = true :=
        (areDigits_toDigits (Binary64.shortest units).digits).digits first (by simp [hdigits])
      have hvalue : digitsNumber [first] = (Binary64.shortest units).digits := by
        rw [← hdigits, digitsNumber_toDigits]
      have hexponent : (if decide (Binary64.place (Binary64.shortest units) - 1 < 0) then
          -(digitsNumber power : Int) else digitsNumber power) = (Binary64.shortest units).exponent := by
        have hlength : Binary64.place (Binary64.shortest units)
            = 1 + (Binary64.shortest units).exponent := by
          rw [Binary64.place, hdigits]
          rfl
        rw [hnumber]
        simp only [decide_eq_true_eq]
        split <;> omega
      have hread := number_power negative hfirst
        (decide (Binary64.place (Binary64.shortest units) - 1 < 0)) hpower hrest
      rw [hvalue, hexponent, Binary64.ofDecimal_shortest negative hunits hpos] at hread
      simpa [signed_append] using hread

/-- **The text of a finite number** is read as the number. -/
theorem number_text {x : Binary64} (hx : x.isFinite = true) (hnumber : x.IsNumber) {rest : List Char}
    (hrest : IsStop rest) : number (x.text.toList ++ rest) = .ok (.scalar (.float x), rest) := by
  cases x with
  | nan => cases hx
  | infinite negative => cases hx
  | finite negative units =>
      rw [Binary64.toList_text_finite]
      by_cases hzero : units = 0
      · subst hzero
        exact number_fraction
          { FractionWord.ofPoint areWhole_zero areWhole_zero.toAreDigits with negative } hrest
      · rw [if_neg hzero]
        exact number_decimalText negative (Binary64.isNumber_finite_iff.mp hnumber)
          (Nat.pos_of_ne_zero hzero) hrest

end ApiClientGen.Json
