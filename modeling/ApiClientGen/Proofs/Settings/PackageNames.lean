/-
Names of packages.

A project is called by the words of the name that is asked for, in capitals, and its package by
the words of that in small letters.  Both keep the letters and digits of the name and nothing
else, so that they are empty for the same names: those without any ASCII letter or digit.
-/
import ApiClientGen.Proofs.Document.Answers
import ApiClientGen.Proofs.Naming.SnakeNames
import ApiClientGen.Settings.Generation

namespace ApiClientGen.Naming

/-! ### Names without words -/

theorem words_eq_nil_iff {s : List Char} : words s = [] ↔ ∀ c ∈ s, isWordChar c = false := by
  constructor
  · intro hwords
    have hnone : s.filter isWordChar = [] := by rw [← flatten_words, hwords]; rfl
    intro c hc
    simpa using List.filter_eq_nil_iff.mp hnone c hc
  · intro hnone
    have hflat : (words s).flatten = [] := by
      rw [flatten_words]
      exact List.filter_eq_nil_iff.mpr fun c hc => by simp [hnone c hc]
    refine List.eq_nil_iff_forall_not_mem.mpr fun w hw => ne_nil_of_mem_words w hw ?_
    exact List.flatten_eq_nil_iff.mp hflat w hw

theorem snakeCase_eq_empty_iff {name : String} :
    snakeCase name = "" ↔ ∀ c ∈ name.toList, isWordChar c = false := by
  rw [← words_eq_nil_iff]
  constructor
  · intro hempty
    by_contra hwords
    obtain ⟨w, ws, hcons⟩ := List.exists_cons_of_ne_nil hwords
    have hw : w ≠ [] := ne_nil_of_mem_words w (by rw [hcons]; simp)
    have hlist : List.intercalate ['_'] ((words name.toList).map small) = [] := by
      have := congrArg String.toList hempty
      simpa [snakeCase] using this
    rw [hcons] at hlist
    have hsmall : small w ≠ [] := by simpa [small] using hw
    cases ws with
    | nil => exact hsmall (by simpa [List.intercalate_singleton] using hlist)
    | cons v ws => simp [List.intercalate_cons_cons] at hlist
  · intro hwords
    simp [snakeCase, hwords, List.intercalate]

theorem pascalCase_eq_empty_iff {name : String} :
    pascalCase name = "" ↔ ∀ c ∈ name.toList, isWordChar c = false := by
  rw [← words_eq_nil_iff]
  constructor
  · intro hempty
    by_contra hwords
    obtain ⟨w, ws, hcons⟩ := List.exists_cons_of_ne_nil hwords
    obtain ⟨c, rest, heq, -⟩ := capitalized_eq_cons (s := name.toList) (w := w) (by rw [hcons]; simp)
    have hlist := congrArg String.toList hempty
    simp [pascalCase, hcons, heq] at hlist
  · intro hwords
    simp [pascalCase, hwords]

end ApiClientGen.Naming

namespace ApiClientGen.Settings

open ApiClientGen.Document ApiClientGen.Files ApiClientGen.Naming

variable {directory : Path} {inputs : Inputs} {g : Generation}

/-! ### The settings of a generation -/

/-- What the settings of a generation are made of. -/
theorem generation_ok (h : inputs.generation directory = .ok g) :
    ∃ name, inputs.name = .string name ∧ g.name = pascalCase name
      ∧ destinationOf directory inputs.outputDir = .ok g.destination := by
  unfold Inputs.generation at h
  obtain ⟨destination, hdestination, h⟩ := except_bind_ok.mp h
  split at h
  · rename_i name hname
    obtain ⟨flags, -, h⟩ := except_bind_ok.mp h
    obtain ⟨language, -, h⟩ := except_bind_ok.mp h
    cases h
    exact ⟨name, hname, rfl, hdestination⟩
  · cases h

/-- **A package has a name** if the name that was asked for has a letter or a digit. -/
theorem packageName_eq_empty_iff {name : String} (hname : g.name = pascalCase name) :
    g.packageName = "" ↔ ∀ c ∈ name.toList, isWordChar c = false := by
  have hpascal : pascalCase name = "" ↔ ∀ c ∈ name.toList, isWordChar c = false :=
    pascalCase_eq_empty_iff
  unfold Generation.packageName
  rw [hname, snakeCase_eq_empty_iff, ← hpascal]
  constructor
  · intro hnone
    by_contra hne
    have hlist : (pascalCase name).toList ≠ [] := fun hnil => hne (String.toList_inj.mp hnil)
    obtain ⟨c, rest, hcons⟩ := List.exists_cons_of_ne_nil hlist
    have hc : c ∈ (pascalCase name).toList := by rw [hcons]; simp
    have hword := isWordChar_of_mem_pascalCase hc
    rw [hnone c hc] at hword
    cases hword
  · intro hempty c hc
    simp [hempty] at hc

/-- The name of a package is made of small letters, digits and low lines. -/
theorem packageName_chars {c : Char} (hc : c ∈ g.packageName.toList) :
    isSmallChar c = true ∨ c = '_' := by
  by_cases hempty : g.packageName = ""
  · simp [hempty] at hc
  · exact (isSnakeName_snakeCase hempty).isSmallChar_or_lowLine hc

end ApiClientGen.Settings
