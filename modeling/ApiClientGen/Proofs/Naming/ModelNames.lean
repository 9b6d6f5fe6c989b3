/-
Names for models.

A name that is given to a model is free, and it is a capital letter followed by ASCII
letters and digits.  It is free because the numbered candidates are pairwise different and
one more than the names taken, so that one of them is not taken.  The shape comes from the
words of a name, which are not empty and hold letters and digits only: their spelling in
capitals begins with a capital letter or a digit, a digit gets a word put in front, and the
number behind a candidate adds digits.
-/
import Mathlib
import ApiClientGen.Extraction.Progress

namespace ApiClientGen.Naming

/-! ### The first name that is free -/

/-- The candidates are not taken all of them. -/
theorem exists_mark_not_mem (taken : List String) {mark : Nat → String}
    (hinj : Function.Injective mark) :
    ∃ n ∈ List.range (taken.length + 1), mark (n + 2) ∉ taken := by
  by_contra hall
  simp only [not_exists, not_and, not_not] at hall
  have hnodup : ((List.range (taken.length + 1)).map fun n => mark (n + 2)).Nodup :=
    List.nodup_range.map fun m n h => by
      have := hinj h
      omega
  have hsub : (List.range (taken.length + 1)).map (fun n => mark (n + 2)) ⊆ taken := by
    intro name hname
    obtain ⟨n, hn, rfl⟩ := List.mem_map.mp hname
    exact hall n hn
  have hle := hnodup.length_le_of_subset hsub
  simp only [List.length_map, List.length_range] at hle
  omega

/-- The first free name is the name itself or a numbered one, and it is free. -/
theorem firstFree_cases (taken : List String) (name : String) {mark : Nat → String}
    (hinj : Function.Injective mark) :
    (name ∉ taken ∧ firstFree taken name mark = name)
      ∨ ∃ n, mark n ∉ taken ∧ firstFree taken name mark = mark n := by
  unfold firstFree
  by_cases hname : taken.contains name
  · obtain ⟨n, hn, hfree⟩ := exists_mark_not_mem taken hinj
    have hsome : (((List.range (taken.length + 1)).map fun n => mark (n + 2)).find?
        fun c => !taken.contains c).isSome := by
      rw [List.find?_isSome]
      exact ⟨mark (n + 2), List.mem_map_of_mem hn, by simpa using hfree⟩
    obtain ⟨c, hc⟩ := Option.isSome_iff_exists.mp hsome
    obtain ⟨m, -, rfl⟩ := List.mem_map.mp (List.mem_of_find?_eq_some hc)
    refine Or.inr ⟨m + 2, by simpa using List.find?_some hc, ?_⟩
    rw [if_pos hname, hc]
    rfl
  · exact Or.inl ⟨by simpa using hname, by rw [if_neg hname]⟩

theorem firstFree_not_mem (taken : List String) (name : String) {mark : Nat → String}
    (hinj : Function.Injective mark) : firstFree taken name mark ∉ taken := by
  rcases firstFree_cases taken name hinj with ⟨hfree, heq⟩ | ⟨n, hfree, heq⟩
  · rw [heq]
    exact hfree
  · rw [heq]
    exact hfree

/-! ### The spelling in capitals -/

theorem isUpper_or_isDigit_toUpper {c : Char} (h : c.isAlphanum = true) :
    c.toUpper.isUpper = true ∨ c.toUpper.isDigit = true := by
  unfold Char.toUpper
  split
  · rename_i hlower
    left
    simp only [Char.isUpper, ge_iff_le, UInt32.le_iff_toNat_le, UInt32.toNat_add,
      decide_eq_true_eq] at hlower ⊢
    simp at hlower ⊢
    omega
  · rename_i hlower
    simp only [Char.isAlphanum, Char.isAlpha, Char.isLower, Bool.or_eq_true] at h
    rcases h with (hupper | hlow) | hdigit
    · exact Or.inl hupper
    · exact absurd (by simpa using hlow) hlower
    · exact Or.inr hdigit

theorem isAlphanum_toLower {c : Char} (h : c.isAlphanum = true) :
    c.toLower.isAlphanum = true := by
  unfold Char.toLower
  split
  · rename_i hupper
    simp only [Char.isAlphanum, Char.isAlpha, Char.isLower, Char.isUpper, Char.isDigit,
      ge_iff_le, UInt32.le_iff_toNat_le, UInt32.toNat_add, Bool.and_eq_true, Bool.or_eq_true,
      decide_eq_true_eq] at hupper ⊢
    simp at hupper ⊢
    omega
  · exact h

theorem consFirst_ne_nil {c : Char} {ws : List (List Char)} (h : ∀ w ∈ ws, w ≠ []) :
    ∀ w ∈ consFirst c ws, w ≠ [] := by
  cases ws with
  | nil => simp [consFirst]
  | cons w ws =>
      intro v hv
      rcases List.mem_cons.mp hv with rfl | hv
      · simp
      · exact h v (List.mem_cons_of_mem _ hv)

theorem ne_nil_of_mem_words {s : List Char} : ∀ w ∈ words s, w ≠ [] := by
  induction s with
  | nil => simp [words]
  | cons c rest ih =>
      unfold words
      split
      · split
        · split
          · exact consFirst_ne_nil ih
          · intro w hw
            rcases List.mem_cons.mp hw with rfl | hw
            · simp
            · exact ih w hw
        · simp
      · exact ih

/-- Words hold letters and digits only. -/
theorem isAlphanum_of_mem_words {s w : List Char} (hw : w ∈ words s) {c : Char} (hc : c ∈ w) :
    c.isAlphanum = true := by
  have hmem : c ∈ (words s).flatten := List.mem_flatten.mpr ⟨w, hw, hc⟩
  rw [flatten_words] at hmem
  exact (List.mem_filter.mp hmem).2

/-- The first character of a word in capitals is a capital letter or a digit. -/
theorem capitalized_eq_cons {s w : List Char} (hw : w ∈ words s) :
    ∃ c rest, capitalized w = c :: rest ∧ (c.isUpper = true ∨ c.isDigit = true)
      ∧ ∀ x ∈ rest, x.isAlphanum = true := by
  cases w with
  | nil => exact absurd rfl (ne_nil_of_mem_words _ hw)
  | cons c rest =>
      refine ⟨c.toUpper, small rest, rfl,
        isUpper_or_isDigit_toUpper (isAlphanum_of_mem_words hw (by simp)), ?_⟩
      intro x hx
      obtain ⟨y, hy, rfl⟩ := List.mem_map.mp hx
      exact isAlphanum_toLower (isAlphanum_of_mem_words hw (List.mem_cons_of_mem _ hy))

theorem isAlphanum_of_isUpper {c : Char} (h : c.isUpper = true) : c.isAlphanum = true := by
  simp [Char.isAlphanum, Char.isAlpha, h]

theorem isAlphanum_of_isDigit {c : Char} (h : c.isDigit = true) : c.isAlphanum = true := by
  simp [Char.isAlphanum, h]

theorem isAlphanum_of_mem_capitalized {s w : List Char} (hw : w ∈ words s) :
    ∀ x ∈ capitalized w, x.isAlphanum = true := by
  obtain ⟨c, rest, heq, hc, hrest⟩ := capitalized_eq_cons hw
  intro x hx
  rw [heq] at hx
  rcases List.mem_cons.mp hx with rfl | hx
  · rcases hc with hupper | hdigit
    · exact isAlphanum_of_isUpper hupper
    · exact isAlphanum_of_isDigit hdigit
  · exact hrest x hx

/-- A name in capitals holds letters and digits only. -/
theorem isWordChar_of_mem_pascalCase {name : String} {c : Char} (hc : c ∈ (pascalCase name).toList) :
    isWordChar c = true := by
  have hlist : (pascalCase name).toList = (words name.toList).flatMap capitalized := by
    simp [pascalCase]
  rw [hlist] at hc
  obtain ⟨w, hw, hc⟩ := List.mem_flatMap.mp hc
  exact isAlphanum_of_mem_capitalized hw c hc

/-- The spelling in capitals is empty, or begins with a capital letter or a digit. -/
theorem pascalCase_cases (name : String) :
    pascalCase name = "" ∨ ∃ c rest, (pascalCase name).toList = c :: rest
      ∧ (c.isUpper = true ∨ c.isDigit = true) ∧ ∀ x ∈ rest, x.isAlphanum = true := by
  have hlist : (pascalCase name).toList = (words name.toList).flatMap capitalized := by
    simp [pascalCase]
  cases hwords : words name.toList with
  | nil =>
      left
      simp [pascalCase, hwords]
  | cons w ws =>
      right
      obtain ⟨c, rest, heq, hc, hrest⟩ := capitalized_eq_cons (s := name.toList) (w := w)
        (by simp [hwords])
      refine ⟨c, rest ++ ws.flatMap capitalized, by simp [hlist, hwords, heq], hc, ?_⟩
      intro x hx
      rcases List.mem_append.mp hx with hx | hx
      · exact hrest x hx
      · obtain ⟨v, hv, hxv⟩ := List.mem_flatMap.mp hx
        exact isAlphanum_of_mem_capitalized (s := name.toList) (by simp [hwords, hv]) x hxv

end ApiClientGen.Naming

namespace ApiClientGen.Extraction

open ApiClientGen.Naming

/-! ### The shape of names for models -/

/-- A capital ASCII letter, followed by ASCII letters and digits. -/
def IsModelName (name : String) : Prop :=
  ∃ c rest, name.toList = c :: rest ∧ c.isUpper = true ∧ ∀ x ∈ rest, x.isAlphanum = true

theorem IsModelName.append {name : String} (h : IsModelName name) {more : String}
    (hmore : ∀ x ∈ more.toList, x.isAlphanum = true) : IsModelName (name ++ more) := by
  obtain ⟨c, rest, hlist, hc, hrest⟩ := h
  refine ⟨c, rest ++ more.toList, by simp [hlist], hc, ?_⟩
  intro x hx
  rcases List.mem_append.mp hx with hx | hx
  · exact hrest x hx
  · exact hmore x hx

theorem isModelName_model : IsModelName "Model" :=
  ⟨'M', ['o', 'd', 'e', 'l'], by simp, rfl, by simp [Char.isAlphanum, Char.isAlpha, Char.isLower]⟩

theorem isModelName_modelNameOf (name : String) : IsModelName (modelNameOf name) := by
  unfold modelNameOf
  rcases pascalCase_cases name with hempty | ⟨c, rest, hlist, hc, hrest⟩
  · rw [hempty]
    exact isModelName_model
  · have hne : pascalCase name ≠ "" := by
      intro h
      rw [h] at hlist
      simp at hlist
    have hstart : startsWithDigit (pascalCase name) = c.isDigit := by
      simp [startsWithDigit, hlist]
    simp only [if_neg hne, hstart]
    by_cases hdigit : c.isDigit = true
    · rw [if_pos hdigit]
      refine isModelName_model.append fun x hx => ?_
      rw [hlist] at hx
      rcases List.mem_cons.mp hx with rfl | hx
      · exact isAlphanum_of_isDigit hdigit
      · exact hrest x hx
    · rw [if_neg hdigit]
      exact ⟨c, rest, hlist, hc.resolve_right hdigit, hrest⟩

theorem numbered_injective (base : String) :
    Function.Injective fun n : Nat => base ++ toString n := by
  intro m n h
  have hrepr : Nat.repr m = Nat.repr n := (String.append_right_inj base).mp h
  have hdigits : Nat.toDigits 10 m = Nat.toDigits 10 n := by
    rw [← Nat.toList_repr, ← Nat.toList_repr, hrepr]
  calc m = Nat.ofDigitChars 10 (Nat.toDigits 10 m) 0 := Nat.ofDigitChars_ten_toDigits.symm
    _ = Nat.ofDigitChars 10 (Nat.toDigits 10 n) 0 := by rw [hdigits]
    _ = n := Nat.ofDigitChars_ten_toDigits

/-- **A name for a model is free.** -/
theorem freeModelName_not_mem (taken : List String) (name : String) :
    freeModelName taken name ∉ taken :=
  firstFree_not_mem taken _ (numbered_injective _)

/-- **A name for a model has the shape of one.** -/
theorem isModelName_freeModelName (taken : List String) (name : String) :
    IsModelName (freeModelName taken name) := by
  unfold freeModelName
  rcases firstFree_cases taken (modelNameOf name) (numbered_injective _)
    with ⟨-, heq⟩ | ⟨n, -, heq⟩
  · rw [heq]
    exact isModelName_modelNameOf name
  · rw [heq]
    refine (isModelName_modelNameOf name).append fun x hx => ?_
    have hdigits : x ∈ Nat.toDigits 10 n := by
      simpa [Nat.toList_repr] using hx
    exact isAlphanum_of_isDigit (Nat.isDigit_of_mem_toDigits (by decide) (by decide) hdigits)

end ApiClientGen.Extraction
