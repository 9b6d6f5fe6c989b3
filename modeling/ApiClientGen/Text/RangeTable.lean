/-
Sets of characters given by ranges of code points.

The tables of character properties are lists of closed ranges in increasing order.
Membership walks the list and stops at the first range that lies above the code
point, so an ASCII character is settled by the first entries.
-/

namespace ApiClientGen.Text

/-- Closed ranges of code points, in increasing order. -/
abbrev RangeTable := List (Nat × Nat)

namespace RangeTable

/-- Whether one of the ranges holds the code point. -/
def covers : RangeTable → Nat → Bool
  | [], _ => false
  | (low, high) :: rest, n =>
    if n < low then false else if n ≤ high then true else covers rest n

/-- A covered code point lies in one of the ranges. -/
theorem exists_range_of_covers {t : RangeTable} {n : Nat} (h : t.covers n = true) :
    ∃ r ∈ t, r.1 ≤ n ∧ n ≤ r.2 := by
  induction t with
  | nil => simp [covers] at h
  | cons r rest ih =>
    obtain ⟨low, high⟩ := r
    simp only [covers] at h
    split at h
    · simp at h
    · next hlow =>
      split at h
      · next hhigh => exact ⟨(low, high), by simp, by omega, hhigh⟩
      · obtain ⟨r, hr, hin⟩ := ih h
        exact ⟨r, List.mem_cons_of_mem _ hr, hin⟩

end RangeTable

end ApiClientGen.Text
