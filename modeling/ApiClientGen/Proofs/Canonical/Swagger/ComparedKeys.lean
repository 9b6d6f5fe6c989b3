/-
Parameters that are compared.

A description of version 2 has a canonical form unless a parameter of one of its operations has a
name or a place without a text, that is, one that holds an integer of too many digits.  It does not
matter whether the parameter counts for the operation in the end: to find this out it has to be
compared.  The canonical form itself is of a later version, in which nothing is compared, so that
there always is a canonical form of it.
-/
import ApiClientGen.Proofs.Canonical.FixedPoint
import ApiClientGen.Proofs.Canonical.Swagger.Conversion
import ApiClientGen.Proofs.Document.PlainValues

namespace ApiClientGen.Canonical

open ApiClientGen.Document ApiClientGen.Number ApiClientGen.Source

namespace Swagger

variable {content item : Fields Value} {e : Entry}

/-- A parameter that is written at an operation or at its path, with what stands behind it. -/
def IsCompared (content : Fields Value) (e : Entry) : Prop :=
  ∃ path method item operation, IsOperation content path method item operation
    ∧ ∃ v ∈ Fields.itemsAt item "parameters" ++ Fields.itemsAt operation "parameters",
      Entry.ofValue? (Fields.fieldsAt content "parameters") v = some e

/-- A parameter whose name or place has no text. -/
def Entry.HasLongKey (e : Entry) : Prop :=
  ∃ key ∈ ["name", "in"], ∃ v, Fields.get? e.resolved key = some v ∧ Holds Scalar.IsLong v

theorem mem_writtenEntries {shared : Fields Value} {ofPath ofOperation : List Value} :
    e ∈ writtenEntries shared ofPath ofOperation
      ↔ ∃ v ∈ ofPath ++ ofOperation, Entry.ofValue? shared v = some e :=
  List.mem_filterMap

theorem mem_pathItemEntries :
    e ∈ pathItemEntries content item
      ↔ ∃ method operation, method ∈ methods ∧ Fields.get? item method = some (.mapping operation)
        ∧ ∃ v ∈ Fields.itemsAt item "parameters" ++ Fields.itemsAt operation "parameters",
          Entry.ofValue? (Fields.fieldsAt content "parameters") v = some e := by
  rw [pathItemEntries, List.mem_flatMap]
  constructor
  · rintro ⟨method, hmethod, h⟩
    split at h
    · rename_i operation hoperation
      exact ⟨method, operation, hmethod, hoperation, mem_writtenEntries.mp h⟩
    · exact nomatch h
  · rintro ⟨method, operation, hmethod, hoperation, h⟩
    refine ⟨method, hmethod, ?_⟩
    rw [hoperation]
    exact mem_writtenEntries.mpr h

theorem mem_comparedEntries : e ∈ comparedEntries content ↔ IsCompared content e := by
  rw [comparedEntries, List.mem_flatMap]
  constructor
  · rintro ⟨⟨path, v⟩, hp, h⟩
    cases v with
    | mapping item =>
        obtain ⟨method, operation, hmethod, hoperation, h⟩ := mem_pathItemEntries.mp h
        exact ⟨path, method, item, operation, ⟨hp, hmethod, hoperation⟩, h⟩
    | list items => exact nomatch h
    | scalar s => exact nomatch h
  · rintro ⟨path, method, item, operation, ⟨hp, hmethod, hoperation⟩, h⟩
    exact ⟨_, hp, mem_pathItemEntries.mpr ⟨method, operation, hmethod, hoperation, h⟩⟩

theorem hasKey_eq_false_iff : e.hasKey = false ↔ e.HasLongKey := by
  have hvalue : ∀ v? : Option Value, (v?.getD .null).hasLongInteger = true
      ↔ ∃ v, v? = some v ∧ Holds Scalar.IsLong v := by
    intro v?
    cases v? with
    | none => exact ⟨fun h => absurd h Bool.false_ne_true, nofun⟩
    | some v => simp [hasLongInteger_iff]
  simp only [Entry.hasKey, Entry.HasLongKey, List.all_eq_false, Bool.not_eq_true, Bool.not_eq_false',
    hvalue]

end Swagger

/-- A description with a parameter whose name or place has no text. -/
def HasLongKey (d : Description) : Prop :=
  d.version = .swagger2 ∧ ∃ e, Swagger.IsCompared d.content e ∧ e.HasLongKey

theorem hasKeys_eq_false_iff {d : Description} : hasKeys d = false ↔ HasLongKey d := by
  obtain ⟨version, content⟩ := d
  cases version with
  | swagger2 =>
      simp only [hasKeys, HasLongKey, List.all_eq_false, Bool.not_eq_true,
        Swagger.hasKey_eq_false_iff, Swagger.mem_comparedEntries, true_and]
  | openapi30 => exact ⟨nofun, fun h => nomatch h.1⟩
  | openapi31 => exact ⟨nofun, fun h => nomatch h.1⟩

/-- **A description has a canonical form** if and only if none of its keys is too long. -/
theorem canonicalize_ends (d : Description) :
    Ends (fun c => c = upgrade d ∧ ¬ HasLongKey d) (fun fault => fault = .longInteger ∧ HasLongKey d)
      (canonicalize d) := by
  unfold canonicalize
  split
  · rename_i h
    exact ⟨rfl, fun hlong => Bool.false_ne_true ((hasKeys_eq_false_iff.mpr hlong).symm.trans h)⟩
  · rename_i h
    exact ⟨rfl, hasKeys_eq_false_iff.mp (Bool.not_eq_true _ ▸ h)⟩

theorem canonicalize_of_hasLongKey {d : Description} (h : HasLongKey d) :
    canonicalize d = .error .longInteger := by
  cases hd : canonicalize d with
  | ok c => exact absurd h ((canonicalize_ends d).of_ok hd).2
  | error fault => rw [((canonicalize_ends d).of_error hd).1]

/--
**Bringing into canonical form is idempotent.**  A description of any version, brought into
canonical form and taken for a description of its own, has that same canonical form, with the same
fields in the same order at every level.  There only is none if a parameter that is compared has an
integer of too many digits in its name or place.
-/
theorem canonicalize_description (d : Description) :
    Ends
      (fun c => ¬ HasLongKey d ∧ canonicalize c.description = .ok c
        ∧ (canonicalize c.description).map (·.fields) = .ok c.fields)
      (fun fault => fault = .longInteger ∧ HasLongKey d) (canonicalize d) := by
  refine (canonicalize_ends d).mono (fun c hc => ?_) fun _ h => h
  obtain ⟨rfl, hkeys⟩ := hc
  have hagain : canonicalize (upgrade d).description = .ok (upgrade d) :=
    congrArg Except.ok (upgrade_description_upgrade d).1
  exact ⟨hkeys, hagain, by rw [hagain]; rfl⟩

/-- A parameter of the name given. -/
def namedParameter (name : Value) : Fields Value :=
  [("name", name), ("in", .string "query"), ("type", .string "string")]

/-- A path with one operation, which has one parameter. -/
def itemOfNamed (name : Value) : Fields Value :=
  [("get", .mapping [("parameters", .list [.mapping (namedParameter name)])])]

/-- Paths with one operation, which has one parameter. -/
def pathsOfNamed (name : Value) : Fields Value := [("/doors", .mapping (itemOfNamed name))]

theorem hasLongKey_of_paths {content : Fields Value} {name : Value}
    (hpaths : Fields.fieldsAt content "paths" = pathsOfNamed name) (h : Holds Scalar.IsLong name) :
    HasLongKey ⟨.swagger2, content⟩ := by
  have hpath : ("/doors", Value.mapping (itemOfNamed name)) ∈ Fields.fieldsAt content "paths" := by
    rw [hpaths]
    exact List.mem_singleton.mpr rfl
  have hcompared : Swagger.IsCompared content ⟨namedParameter name, namedParameter name⟩ :=
    ⟨"/doors", "get", _, _, ⟨hpath, by decide, rfl⟩, .mapping (namedParameter name),
      List.mem_singleton.mpr rfl, rfl⟩
  exact ⟨rfl, _, hcompared, "name", by decide, name, rfl, h⟩

/-- The least integer that has too many digits. -/
def longInteger : Value := .int (Int.ofNat (Nat.pow 10 digitLimit))

theorem holds_isLong_longInteger : Holds Scalar.IsLong longInteger := by
  have hlong : ∀ limit, (Nat.pow 10 limit ≤ (Int.ofNat (Nat.pow 10 limit)).natAbs : Bool) = true :=
    fun limit => decide_eq_true (Nat.le_refl _)
  refine .scalar ?_
  rw [Scalar.IsLong, exceedsDigits, hlong]

/-- A description of version 2 with a parameter that has a long integer for its name. -/
def longNameContent : Fields Value :=
  [("swagger", .string "2.0"), ("paths", .mapping (pathsOfNamed longInteger))]

/-- **A name that is a long integer** leaves a description without a canonical form. -/
theorem not_canonicalize_longInteger :
    canonicalize ⟨.swagger2, longNameContent⟩ = .error .longInteger
      ∧ ¬ ∀ d : Description, ∃ c, canonicalize d = .ok c ∧ canonicalize c.description = .ok c := by
  have hfault : canonicalize ⟨.swagger2, longNameContent⟩ = .error .longInteger :=
    canonicalize_of_hasLongKey (hasLongKey_of_paths rfl holds_isLong_longInteger)
  refine ⟨hfault, fun hall => ?_⟩
  obtain ⟨c, hc, -⟩ := hall ⟨.swagger2, longNameContent⟩
  rw [hfault] at hc
  cases hc

end ApiClientGen.Canonical
