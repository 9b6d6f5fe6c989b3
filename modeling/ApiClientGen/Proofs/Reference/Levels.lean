/-
How many levels are enough.

A search that stops at a number of levels has two ways to be right for all levels from some
number on.

  * It fails when the levels are used up, and an answer that it gives stays its answer.  Then
    the number of levels at which a thing gets its answer is a rank: a thing of some rank asks
    for one of the rank below.  The things in such a descent are all different, so that no
    rank is greater than the number of things there are to ask for.
  * It keeps the things it has looked at and looks at none of them again.  Then the number of
    those that remain goes down with every level.
-/
import Mathlib.Data.List.Nodup
import Mathlib.Data.List.Perm.Subperm

namespace ApiClientGen.Reference

/-! ### Searches that fail for want of levels -/

section

variable {α β : Type} {F : Nat → α → β} {fault : β}

/-- An answer that is given stays the answer. -/
theorem answer_stays (hmono : ∀ k a, F k a ≠ fault → F (k + 1) a = F k a) {j k : Nat} (hjk : j ≤ k)
    {a : α} (h : F j a ≠ fault) : F k a = F j a := by
  induction hjk with
  | refl => rfl
  | step _ ih => rw [hmono _ a (ih ▸ h), ih]

/-- A thing gets its answer at one number of levels only. -/
theorem rank_unique (hmono : ∀ k a, F k a ≠ fault → F (k + 1) a = F k a) {j k : Nat} {a : α}
    (hj : F (j + 1) a ≠ F j a) (hk : F (k + 1) a ≠ F k a) : j = k := by
  have hfault : ∀ {i}, F (i + 1) a ≠ F i a → F i a = fault := fun h =>
    Classical.byContradiction fun hne => h (hmono _ a hne)
  have hle : ∀ {i l}, F (i + 1) a ≠ F i a → F (l + 1) a ≠ F l a → l ≤ i := by
    intro i l hi hl
    refine Nat.le_of_not_lt fun hlt => hl ?_
    have hanswer : F (i + 1) a ≠ fault := by
      rw [← hfault hi]
      exact hi
    rw [answer_stays hmono (Nat.le_succ_of_le hlt) hanswer, answer_stays hmono hlt hanswer]
  exact Nat.le_antisymm (hle hk hj) (hle hj hk)

variable {L : List α} {P : α → Prop}

/-- A thing of some rank stands above a descent through things of all lower ranks. -/
theorem exists_descent (hmono : ∀ k a, F k a ≠ fault → F (k + 1) a = F k a) (hL : ∀ a ∈ L, P a)
    (hstep : ∀ k, (∀ a ∈ L, F (k + 1) a = F k a) → ∀ a, P a → F (k + 2) a = F (k + 1) a)
    (k : Nat) (a : α) (ha : P a) (h : F (k + 1) a ≠ F k a) :
    ∃ l : List α, l.Nodup ∧ l ⊆ L ∧ l.length = k ∧ ∀ b ∈ l, ∃ j < k, F (j + 1) b ≠ F j b := by
  induction k generalizing a with
  | zero => exact ⟨[], List.nodup_nil, List.nil_subset _, rfl, fun b hb => nomatch hb⟩
  | succ k ih =>
      -- If nothing had this rank, the step would make the two answers for `a` the same.
      obtain ⟨b, hb, hrank⟩ : ∃ b ∈ L, F (k + 1) b ≠ F k b := by
        by_contra hnone
        simp only [not_exists, not_and, not_not] at hnone
        exact h (hstep k hnone a ha)
      obtain ⟨l, hnodup, hsub, hlength, hranks⟩ := ih b (hL b hb) hrank
      refine ⟨b :: l, List.nodup_cons.mpr ⟨fun hbl => ?_, hnodup⟩, List.cons_subset.mpr ⟨hb, hsub⟩,
        by simp [hlength], ?_⟩
      · obtain ⟨j, hj, hjrank⟩ := hranks b hbl
        exact Nat.ne_of_lt hj (rank_unique hmono hjrank hrank)
      · intro c hc
        rcases List.mem_cons.mp hc with rfl | hc
        · exact ⟨k, Nat.lt_succ_self k, hrank⟩
        · obtain ⟨j, hj, hjrank⟩ := hranks c hc
          exact ⟨j, Nat.lt_succ_of_lt hj, hjrank⟩

/-- **More levels than there are things to ask for change nothing.** -/
theorem levels_enough (hmono : ∀ k a, F k a ≠ fault → F (k + 1) a = F k a) (hL : ∀ a ∈ L, P a)
    (hstep : ∀ k, (∀ a ∈ L, F (k + 1) a = F k a) → ∀ a, P a → F (k + 2) a = F (k + 1) a) {k : Nat}
    (hk : L.length < k) (more : Nat) {a : α} (ha : P a) : F (k + more) a = F k a := by
  have hnext : ∀ {l}, L.length < l → F (l + 1) a = F l a := by
    intro l hl
    by_contra hrank
    obtain ⟨descent, hnodup, hsub, hlength, -⟩ := exists_descent hmono hL hstep l a ha hrank
    have hle := hnodup.length_le_of_subset hsub
    omega
  induction more with
  | zero => rfl
  | succ more ih => exact (hnext (Nat.lt_add_right more hk)).trans ih

end

/-! ### Searches that keep what they have looked at -/

section

variable {α : Type} [DecidableEq α] {L seen more : List α}

/-- How many things of a list have not been looked at. -/
def remaining (L seen : List α) : Nat := (L.filter fun a => a ∉ seen).length

theorem remaining_le_length (L seen : List α) : remaining L seen ≤ L.length :=
  List.length_filter_le _ _

theorem remaining_mono (h : seen ⊆ more) : remaining L more ≤ remaining L seen := by
  unfold remaining
  refine List.Sublist.length_le (List.monotone_filter_right L fun a ha => ?_)
  simp only [decide_eq_true_eq] at ha ⊢
  exact fun hseen => ha (h hseen)

/-- Looking at one more thing leaves fewer. -/
theorem remaining_cons_lt {a : α} (ha : a ∈ L) (hnew : a ∉ seen) :
    remaining L (a :: seen) < remaining L seen := by
  have hsplit : L.filter (fun b => b ∉ a :: seen)
      = (L.filter fun b => b ∉ seen).filter (· ≠ a) := by
    rw [List.filter_filter]
    congr 1
    funext b
    simp
  unfold remaining
  rw [hsplit]
  refine List.length_filter_lt_length_iff_exists.mpr ⟨a, ?_, by simp⟩
  exact List.mem_filter.mpr ⟨ha, by simpa using hnew⟩

end

end ApiClientGen.Reference
