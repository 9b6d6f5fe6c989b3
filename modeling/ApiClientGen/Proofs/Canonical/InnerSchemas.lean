/-
The schemas inside of a schema.

A schema holds other schemas under the keys of its properties, of its items, additional
properties and negation, and of the lists of schemas that it combines, on any number of
levels.  A change of schemas goes from the inner ones to the outer one, so what it gives every
schema is shown by one induction: from a schema whose inner schemas are changed already to the
changed one.  Writing a keyword that holds no schemas adds none, and leaves the others in place.
-/
import ApiClientGen.Canonical.Schemas
import ApiClientGen.Proofs.Document.Tables

namespace ApiClientGen.Canonical

open ApiClientGen.Document

mutual

/-- The schemas in a value that stands where a schema does: itself and those inside of it. -/
def schemasIn : Value → List (Fields Value)
  | .mapping fields => fields :: schemasInFields fields
  | .list _ => []
  | .scalar _ => []

/-- The schemas inside of a schema with the fields given. -/
def schemasInFields : List (String × Value) → List (Fields Value)
  | [] => []
  | (key, v) :: rest => schemasUnder key v ++ schemasInFields rest

/-- The schemas in what stands under a key of a schema. -/
def schemasUnder (key : String) : Value → List (Fields Value)
  | .mapping fields =>
    if key = "properties" then schemasInTable fields
    else if ["items", "additionalProperties", "not"].contains key then
      fields :: schemasInFields fields
    else []
  | .list vs => if ["allOf", "anyOf", "oneOf"].contains key then schemasInItems vs else []
  | .scalar _ => []

/-- The schemas in the properties of a schema. -/
def schemasInTable : List (String × Value) → List (Fields Value)
  | [] => []
  | (_, v) :: rest => schemasIn v ++ schemasInTable rest

/-- The schemas in a list of schemas. -/
def schemasInItems : List Value → List (Fields Value)
  | [] => []
  | v :: rest => schemasIn v ++ schemasInItems rest

end

theorem mem_schemasInFields {s : Fields Value} {fields : List (String × Value)} :
    s ∈ schemasInFields fields ↔ ∃ e ∈ fields, s ∈ schemasUnder e.1 e.2 := by
  induction fields with
  | nil => simp [schemasInFields]
  | cons e rest ih => simp [schemasInFields, ih]

/-! ### What a change does under a key -/

theorem mapUnder_mapping (change : Fields Value → Fields Value) (key : String)
    (fields : List (String × Value)) :
    mapUnder change key (.mapping fields)
      = if key = "properties" then .mapping (mapProperties change fields)
        else if ["items", "additionalProperties", "not"].contains key then
          .mapping (change (mapInner change fields))
        else .mapping fields := by
  rw [mapUnder]
  rfl

theorem mapUnder_list (change : Fields Value → Fields Value) (key : String) (vs : List Value) :
    mapUnder change key (.list vs)
      = if ["allOf", "anyOf", "oneOf"].contains key then .list (mapSchemas change vs)
        else .list vs := by
  rw [mapUnder]
  rfl

/-! ### Keywords that hold no schemas -/

/-- The keywords that hold schemas. -/
def holdingKeys : List String :=
  ["properties", "items", "additionalProperties", "not", "allOf", "anyOf", "oneOf"]

theorem schemasUnder_eq_nil {key : String} (h : key ∉ holdingKeys) (v : Value) :
    schemasUnder key v = [] := by
  simp only [holdingKeys, List.mem_cons, List.not_mem_nil, or_false, not_or] at h
  cases v <;> simp [schemasUnder, h]

theorem mapUnder_eq_self {key : String} (h : key ∉ holdingKeys)
    (change : Fields Value → Fields Value) (v : Value) : mapUnder change key v = v := by
  simp only [holdingKeys, List.mem_cons, List.not_mem_nil, or_false, not_or] at h
  cases v with
  | scalar v => rfl
  | list vs => simp [mapUnder_list, h]
  | mapping fields => simp [mapUnder_mapping, h]

theorem mem_schemasInFields_set {s : Fields Value} {fields : Fields Value} {key : String}
    {v : Value} (h : s ∈ schemasInFields (Fields.set fields key v)) :
    s ∈ schemasUnder key v ∨ s ∈ schemasInFields fields := by
  obtain ⟨e, he, hs⟩ := mem_schemasInFields.mp h
  rcases Fields.mem_set he with rfl | hmem
  · exact Or.inl hs
  · exact Or.inr (mem_schemasInFields.mpr ⟨e, hmem, hs⟩)

/-- Writing a keyword that holds no schemas adds none. -/
theorem schemasInFields_set_subset (fields : Fields Value) {key : String} (hkey : key ∉ holdingKeys)
    (v : Value) : schemasInFields (Fields.set fields key v) ⊆ schemasInFields fields := by
  intro s hs
  refine (mem_schemasInFields_set hs).resolve_left fun hunder => ?_
  rw [schemasUnder_eq_nil hkey] at hunder
  cases hunder

theorem schemasInFields_erase_subset (fields : Fields Value) (key : String) :
    schemasInFields (Fields.erase fields key) ⊆ schemasInFields fields := by
  intro s hs
  obtain ⟨e, he, hs⟩ := mem_schemasInFields.mp hs
  exact mem_schemasInFields.mpr ⟨e, (List.mem_filter.mp he).1, hs⟩

/-- A keyword that holds no schemas reads as before when the inner schemas are changed. -/
theorem get?_mapInner {key : String} (hkey : key ∉ holdingKeys)
    (change : Fields Value → Fields Value) (fields : Fields Value) :
    Fields.get? (mapInner change fields) key = Fields.get? fields key := by
  induction fields with
  | nil => rfl
  | cons e rest ih =>
      obtain ⟨k, v⟩ := e
      by_cases hk : k = key
      · subst hk
        simp [mapInner, Fields.get?, mapUnder_eq_self hkey]
      · simp [mapInner, Fields.get?, hk, ih]

/-! ### From the inner schemas to the outer one -/

/--
A change gives `P` to all schemas in a schema with `H`, if the schemas inside of it are changed
and have `P` already.
-/
def Gives (change : Fields Value → Fields Value) (H P : Fields Value → Prop) : Prop :=
  ∀ fields, H fields → (∀ s ∈ schemasInFields (mapInner change fields), P s) →
    ∀ s ∈ schemasIn (.mapping (change (mapInner change fields))), P s

/-- A change leaves schemas with `P` alone. -/
def Spares (change : Fields Value → Fields Value) (P : Fields Value → Prop) : Prop :=
  ∀ fields, P fields → change fields = fields

section

variable {change : Fields Value → Fields Value} {H P : Fields Value → Prop}

mutual

/-- **What a change gives to a schema around changed ones, it gives to all schemas.** -/
theorem forall_schemasIn_mapSchema (hstep : Gives change H P) :
    (v : Value) → (∀ s ∈ schemasIn v, H s) → ∀ s ∈ schemasIn (mapSchema change v), P s
  | .scalar v, _ => fun s hs => nomatch hs
  | .list vs, _ => fun s hs => nomatch hs
  | .mapping fields, h =>
      hstep fields (h fields (by simp [schemasIn]))
        (forall_schemasInFields_mapInner hstep fields fun s hs => h s (by simp [schemasIn, hs]))

theorem forall_schemasInFields_mapInner (hstep : Gives change H P) :
    (fields : List (String × Value)) → (∀ s ∈ schemasInFields fields, H s) →
      ∀ s ∈ schemasInFields (mapInner change fields), P s
  | [], _ => fun s hs => nomatch hs
  | (key, v) :: rest, h => fun s hs => by
      rcases List.mem_append.mp hs with hfirst | hrest
      · exact forall_schemasUnder_mapUnder hstep key v
          (fun s hs => h s (List.mem_append_left _ hs)) s hfirst
      · exact forall_schemasInFields_mapInner hstep rest
          (fun s hs => h s (List.mem_append_right _ hs)) s hrest

theorem forall_schemasUnder_mapUnder (hstep : Gives change H P) (key : String) :
    (v : Value) → (∀ s ∈ schemasUnder key v, H s) →
      ∀ s ∈ schemasUnder key (mapUnder change key v), P s
  | .scalar v, _ => fun s hs => nomatch hs
  | .list vs, h => by
      rw [mapUnder_list]
      rw [schemasUnder] at h
      split
      · rename_i hlist
        rw [if_pos hlist] at h
        rw [schemasUnder, if_pos hlist]
        exact forall_schemasInItems_mapSchemas hstep vs h
      · rename_i hlist
        rw [schemasUnder, if_neg hlist]
        exact fun s hs => nomatch hs
  | .mapping fields, h => by
      rw [mapUnder_mapping]
      rw [schemasUnder] at h
      split
      · rename_i hproperties
        rw [if_pos hproperties] at h
        rw [schemasUnder, if_pos hproperties]
        exact forall_schemasInTable_mapProperties hstep fields h
      · rename_i hproperties
        rw [if_neg hproperties] at h
        split
        · rename_i hsingle
          rw [if_pos hsingle] at h
          rw [schemasUnder, if_neg hproperties, if_pos hsingle]
          exact hstep fields (h fields (by simp))
            (forall_schemasInFields_mapInner hstep fields fun s hs => h s (by simp [hs]))
        · rename_i hsingle
          rw [schemasUnder, if_neg hproperties, if_neg hsingle]
          exact fun s hs => nomatch hs

theorem forall_schemasInTable_mapProperties (hstep : Gives change H P) :
    (fields : List (String × Value)) → (∀ s ∈ schemasInTable fields, H s) →
      ∀ s ∈ schemasInTable (mapProperties change fields), P s
  | [], _ => fun s hs => nomatch hs
  | (_, v) :: rest, h => fun s hs => by
      rcases List.mem_append.mp hs with hfirst | hrest
      · exact forall_schemasIn_mapSchema hstep v
          (fun s hs => h s (List.mem_append_left _ hs)) s hfirst
      · exact forall_schemasInTable_mapProperties hstep rest
          (fun s hs => h s (List.mem_append_right _ hs)) s hrest

theorem forall_schemasInItems_mapSchemas (hstep : Gives change H P) :
    (vs : List Value) → (∀ s ∈ schemasInItems vs, H s) →
      ∀ s ∈ schemasInItems (mapSchemas change vs), P s
  | [], _ => fun s hs => nomatch hs
  | v :: rest, h => fun s hs => by
      rcases List.mem_append.mp hs with hfirst | hrest
      · exact forall_schemasIn_mapSchema hstep v
          (fun s hs => h s (List.mem_append_left _ hs)) s hfirst
      · exact forall_schemasInItems_mapSchemas hstep rest
          (fun s hs => h s (List.mem_append_right _ hs)) s hrest

end

mutual

/-- **A change that leaves each of the schemas in a schema alone leaves all of it alone.** -/
theorem mapSchema_eq_self (hsame : Spares change P) :
    (v : Value) → (∀ s ∈ schemasIn v, P s) → mapSchema change v = v
  | .scalar v, _ => rfl
  | .list vs, _ => rfl
  | .mapping fields, h => by
      rw [mapSchema, mapInner_eq_self hsame fields fun s hs => h s (by simp [schemasIn, hs]),
        hsame fields (h fields (by simp [schemasIn]))]

theorem mapInner_eq_self (hsame : Spares change P) :
    (fields : List (String × Value)) → (∀ s ∈ schemasInFields fields, P s) →
      mapInner change fields = fields
  | [], _ => rfl
  | (key, v) :: rest, h => by
      rw [mapInner,
        mapUnder_eq_self_of_forall hsame key v fun s hs => h s (List.mem_append_left _ hs),
        mapInner_eq_self hsame rest fun s hs => h s (List.mem_append_right _ hs)]

theorem mapUnder_eq_self_of_forall (hsame : Spares change P) (key : String) :
    (v : Value) → (∀ s ∈ schemasUnder key v, P s) → mapUnder change key v = v
  | .scalar v, _ => rfl
  | .list vs, h => by
      rw [mapUnder_list]
      rw [schemasUnder] at h
      split
      · rename_i hlist
        rw [if_pos hlist] at h
        rw [mapSchemas_eq_self hsame vs h]
      · rfl
  | .mapping fields, h => by
      rw [mapUnder_mapping]
      rw [schemasUnder] at h
      split
      · rename_i hproperties
        rw [if_pos hproperties] at h
        rw [mapProperties_eq_self hsame fields h]
      · rename_i hproperties
        rw [if_neg hproperties] at h
        split
        · rename_i hsingle
          rw [if_pos hsingle] at h
          rw [mapInner_eq_self hsame fields fun s hs => h s (by simp [hs]),
            hsame fields (h fields (by simp))]
        · rfl

theorem mapProperties_eq_self (hsame : Spares change P) :
    (fields : List (String × Value)) → (∀ s ∈ schemasInTable fields, P s) →
      mapProperties change fields = fields
  | [], _ => rfl
  | (_, v) :: rest, h => by
      rw [mapProperties, mapSchema_eq_self hsame v fun s hs => h s (List.mem_append_left _ hs),
        mapProperties_eq_self hsame rest fun s hs => h s (List.mem_append_right _ hs)]

theorem mapSchemas_eq_self (hsame : Spares change P) :
    (vs : List Value) → (∀ s ∈ schemasInItems vs, P s) → mapSchemas change vs = vs
  | [], _ => rfl
  | v :: rest, h => by
      rw [mapSchemas, mapSchema_eq_self hsame v fun s hs => h s (List.mem_append_left _ hs),
        mapSchemas_eq_self hsame rest fun s hs => h s (List.mem_append_right _ hs)]

end

end

end ApiClientGen.Canonical
