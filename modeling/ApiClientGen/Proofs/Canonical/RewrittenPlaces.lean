/-
The schemas of a description whose references are rewritten.

Rewriting references changes texts under the key of references and nothing else, so whatever has
a place in a description keeps it.  What is read off the fields of a schema then only has to be
known of the schemas before rewriting.
-/
import ApiClientGen.Proofs.Canonical.NormalForm
import ApiClientGen.Proofs.Canonical.References

namespace ApiClientGen.Canonical

open ApiClientGen.Document

/-! ### The schemas in a schema -/

mutual

/-- The schemas in a value with references in canonical form are its schemas with theirs. -/
theorem schemasIn_canonicalRefAt (key : String) : (v : Value) →
    schemasIn (canonicalRefAt key v) = (schemasIn v).map canonicalRefFields
  | .scalar s => by cases s <;> rfl
  | .list vs => rfl
  | .mapping fields => by
      simp only [canonicalRefAt, schemasIn, List.map_cons, schemasInFields_canonicalRefFields fields]

theorem schemasIn_canonicalRefs : (v : Value) →
    schemasIn (canonicalRefs v) = (schemasIn v).map canonicalRefFields
  | .scalar s => rfl
  | .list vs => rfl
  | .mapping fields => by
      simp only [canonicalRefs, schemasIn, List.map_cons, schemasInFields_canonicalRefFields fields]

theorem schemasInFields_canonicalRefFields : (fields : List (String × Value)) →
    schemasInFields (canonicalRefFields fields) = (schemasInFields fields).map canonicalRefFields
  | [] => rfl
  | (key, v) :: rest => by
      rw [canonicalRefFields, schemasInFields, schemasInFields, List.map_append,
        schemasUnder_canonicalRefAt key v, schemasInFields_canonicalRefFields rest]

theorem schemasUnder_canonicalRefAt (key : String) : (v : Value) →
    schemasUnder key (canonicalRefAt key v) = (schemasUnder key v).map canonicalRefFields
  | .scalar s => by cases s <;> rfl
  | .list vs => by
      rw [canonicalRefAt, schemasUnder, schemasUnder]
      split
      · exact schemasInItems_canonicalRefItems vs
      · rfl
  | .mapping fields => by
      rw [canonicalRefAt, schemasUnder, schemasUnder]
      split
      · exact schemasInTable_canonicalRefFields fields
      · split
        · rw [List.map_cons, schemasInFields_canonicalRefFields fields]
        · rfl

theorem schemasInTable_canonicalRefFields : (fields : List (String × Value)) →
    schemasInTable (canonicalRefFields fields) = (schemasInTable fields).map canonicalRefFields
  | [] => rfl
  | (key, v) :: rest => by
      rw [canonicalRefFields, schemasInTable, schemasInTable, List.map_append,
        schemasIn_canonicalRefAt key v, schemasInTable_canonicalRefFields rest]

theorem schemasInItems_canonicalRefItems : (vs : List Value) →
    schemasInItems (canonicalRefItems vs) = (schemasInItems vs).map canonicalRefFields
  | [] => rfl
  | v :: rest => by
      rw [canonicalRefItems, schemasInItems, schemasInItems, List.map_append,
        schemasIn_canonicalRefs v, schemasInItems_canonicalRefItems rest]

end

/-! ### The places of schemas -/

/-- Parts of a value that are still its parts when references come into canonical form. -/
def KeepsPlaces (parts : Value → List Value) : Prop :=
  ∀ key v, ∀ w ∈ parts (canonicalRefAt key v), ∃ k, ∃ u ∈ parts v, w = canonicalRefAt k u

section

variable {f g : Value → List Value}

theorem asFields_canonicalRefAt (key : String) (v : Value) :
    (canonicalRefAt key v).asFields = v.asFields.map fun e => (e.1, canonicalRefAt e.1 e.2) := by
  cases v with
  | scalar s => cases s <;> rfl
  | list vs => rfl
  | mapping fields => exact canonicalRefFields_eq_map fields

theorem keepsPlaces_valuesAt (key : String) : KeepsPlaces (valuesAt key) := by
  intro k v w hw
  rw [mem_valuesAt, asFields_canonicalRefAt] at hw
  obtain ⟨e, he, heq⟩ := List.mem_map.mp hw
  cases heq
  exact ⟨_, e.2, mem_valuesAt.mpr he, rfl⟩

theorem mem_valuesOf {v w : Value} : w ∈ valuesOf v ↔ ∃ k, (k, w) ∈ v.asFields := by
  simp [valuesOf]

theorem keepsPlaces_valuesOf : KeepsPlaces valuesOf := by
  intro k v w hw
  obtain ⟨name, hmem⟩ := mem_valuesOf.mp hw
  rw [asFields_canonicalRefAt] at hmem
  obtain ⟨e, he, heq⟩ := List.mem_map.mp hmem
  cases heq
  exact ⟨_, e.2, mem_valuesOf.mpr ⟨_, he⟩, rfl⟩

theorem keepsPlaces_asItems : KeepsPlaces Value.asItems := by
  have hitem : ∀ v, canonicalRefs v = canonicalRefAt "" v := by
    intro v
    cases v with
    | scalar s => cases s <;> rfl
    | list vs => rfl
    | mapping fields => rfl
  intro k v w hw
  cases v with
  | scalar s => cases s <;> cases hw
  | mapping fields => cases hw
  | list vs =>
      rw [canonicalRefAt, Value.asItems, canonicalRefItems_eq_map] at hw
      obtain ⟨u, hu, rfl⟩ := List.mem_map.mp hw
      exact ⟨"", u, hu, hitem u⟩

theorem KeepsPlaces.flatMap (hf : KeepsPlaces f) (hg : KeepsPlaces g) :
    KeepsPlaces fun v => (f v).flatMap g := by
  intro key v w hw
  obtain ⟨part, hpart, hw⟩ := List.mem_flatMap.mp hw
  obtain ⟨k, u, hu, rfl⟩ := hf key v part hpart
  obtain ⟨l, x, hx, rfl⟩ := hg k u w hw
  exact ⟨l, x, List.mem_flatMap.mpr ⟨u, hu, hx⟩, rfl⟩

theorem KeepsPlaces.append (hf : KeepsPlaces f) (hg : KeepsPlaces g) :
    KeepsPlaces fun v => f v ++ g v := by
  intro key v w hw
  rcases List.mem_append.mp hw with hw | hw
  · obtain ⟨k, u, hu, rfl⟩ := hf key v w hw
    exact ⟨k, u, List.mem_append_left _ hu, rfl⟩
  · obtain ⟨k, u, hu, rfl⟩ := hg key v w hw
    exact ⟨k, u, List.mem_append_right _ hu, rfl⟩

/-- The parts that several ways of looking into a value give. -/
theorem KeepsPlaces.flatMapKeys {keys : List String} {f : String → Value → List Value}
    (hf : ∀ key ∈ keys, KeepsPlaces (f key)) : KeepsPlaces fun v => keys.flatMap fun key => f key v := by
  intro key v w hw
  obtain ⟨name, hname, hw⟩ := List.mem_flatMap.mp hw
  obtain ⟨k, u, hu, rfl⟩ := hf name hname key v w hw
  exact ⟨k, u, List.mem_flatMap.mpr ⟨name, hname, hu⟩, rfl⟩

theorem keepsPlaces_contentSchemas : KeepsPlaces contentSchemas :=
  keepsPlaces_valuesOf.flatMap (keepsPlaces_valuesAt "schema")

theorem keepsPlaces_parameterSchemas : KeepsPlaces parameterSchemas :=
  (keepsPlaces_valuesAt "schema").append
    ((keepsPlaces_valuesAt "content").flatMap keepsPlaces_contentSchemas)

theorem keepsPlaces_parameterListSchemas : KeepsPlaces parameterListSchemas :=
  keepsPlaces_asItems.flatMap keepsPlaces_parameterSchemas

theorem keepsPlaces_parameterTableSchemas : KeepsPlaces parameterTableSchemas :=
  keepsPlaces_valuesOf.flatMap keepsPlaces_parameterSchemas

theorem keepsPlaces_responseTableSchemas : KeepsPlaces responseTableSchemas :=
  keepsPlaces_valuesOf.flatMap
    (((keepsPlaces_valuesAt "content").flatMap keepsPlaces_contentSchemas).append
      ((keepsPlaces_valuesAt "headers").flatMap keepsPlaces_parameterTableSchemas))

theorem keepsPlaces_requestBodySchemas : KeepsPlaces requestBodySchemas :=
  (keepsPlaces_valuesAt "content").flatMap keepsPlaces_contentSchemas

theorem keepsPlaces_operationSchemas : KeepsPlaces operationSchemas :=
  (((keepsPlaces_valuesAt "parameters").flatMap keepsPlaces_parameterListSchemas).append
    ((keepsPlaces_valuesAt "requestBody").flatMap keepsPlaces_requestBodySchemas)).append
    ((keepsPlaces_valuesAt "responses").flatMap keepsPlaces_responseTableSchemas)

theorem keepsPlaces_pathItemSchemas : KeepsPlaces pathItemSchemas :=
  KeepsPlaces.append
    (.flatMapKeys fun key _ => (keepsPlaces_valuesAt key).flatMap keepsPlaces_operationSchemas)
    ((keepsPlaces_valuesAt "parameters").flatMap keepsPlaces_parameterListSchemas)

theorem keepsPlaces_componentSchemas : KeepsPlaces componentSchemas :=
  (((((keepsPlaces_valuesAt "schemas").flatMap keepsPlaces_valuesOf).append
    ((keepsPlaces_valuesAt "parameters").flatMap keepsPlaces_parameterTableSchemas)).append
    ((keepsPlaces_valuesAt "responses").flatMap keepsPlaces_responseTableSchemas)).append
    ((keepsPlaces_valuesAt "requestBodies").flatMap
      (keepsPlaces_valuesOf.flatMap keepsPlaces_requestBodySchemas))).append
    ((keepsPlaces_valuesAt "headers").flatMap keepsPlaces_parameterTableSchemas)

/-- **The schemas of a description whose references come into canonical form** are its schemas,
with their own references in canonical form. -/
theorem exists_of_mem_documentSchemas_canonicalRefFields {fields s : Fields Value}
    (h : s ∈ documentSchemas (canonicalRefFields fields)) :
    ∃ r ∈ documentSchemas fields, s = canonicalRefFields r := by
  have hplaces : KeepsPlaces fun v => outerSchemas v.asFields := by
    have hkeeps : KeepsPlaces fun v => (valuesAt "paths" v).flatMap
        (fun paths => (valuesOf paths).flatMap pathItemSchemas)
          ++ (valuesAt "components" v).flatMap componentSchemas :=
      ((keepsPlaces_valuesAt "paths").flatMap
        (keepsPlaces_valuesOf.flatMap keepsPlaces_pathItemSchemas)).append
        ((keepsPlaces_valuesAt "components").flatMap keepsPlaces_componentSchemas)
    exact hkeeps
  obtain ⟨v, hv, hs⟩ := List.mem_flatMap.mp h
  obtain ⟨k, u, hu, rfl⟩ := hplaces "" (.mapping fields) v hv
  rw [schemasIn_canonicalRefAt] at hs
  obtain ⟨r, hr, rfl⟩ := List.mem_map.mp hs
  exact ⟨r, List.mem_flatMap.mpr ⟨u, hu, hr⟩, rfl⟩

end

end ApiClientGen.Canonical
