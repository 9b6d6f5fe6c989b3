/-
Documents written anew.

Before references are followed, a document is written anew: keys become distinct, and bytes
become lists of numbers.  Each part of a value is written anew by itself, so that nothing
happens to the references in it.  A document in which a reference stands where the text of one
is expected cannot be linked; whether there is such a place is asked of each part, too.
-/
import ApiClientGen.Proofs.Canonical.References
import ApiClientGen.Reference.Resolve

namespace ApiClientGen.Reference.Linked

open ApiClientGen.Canonical ApiClientGen.Document

/-! ### Parts of values written anew -/

theorem fieldsWithoutBytes_eq_map (fields : Fields Value) :
    fieldsWithoutBytes fields = fields.map fun e => (e.1, withoutBytes e.2) := by
  induction fields with
  | nil => rfl
  | cons e rest ih => rw [fieldsWithoutBytes, ih, List.map_cons]

theorem itemsWithoutBytes_eq_map (vs : List Value) :
    itemsWithoutBytes vs = vs.map withoutBytes := by
  induction vs with
  | nil => rfl
  | cons v rest ih => rw [itemsWithoutBytes, ih, List.map_cons]

theorem keys_fieldsWithoutBytes (fields : Fields Value) :
    Fields.keys (fieldsWithoutBytes fields) = Fields.keys fields := by
  rw [fieldsWithoutBytes_eq_map, Fields.keys_map fun _ => withoutBytes]

theorem withoutBytes_list (vs : List Value) :
    withoutBytes (.list vs) = .list (vs.map withoutBytes) := by
  rw [withoutBytes, itemsWithoutBytes_eq_map]

/-- A mapping with distinct keys keeps them. -/
theorem withoutBytes_mapping {fields : Fields Value} (hnodup : (Fields.keys fields).Nodup) :
    withoutBytes (.mapping fields) = .mapping (fields.map fun e => (e.1, withoutBytes e.2)) := by
  rw [withoutBytes, fieldsWithoutBytes_eq_map, Fields.ofEntries_eq_self]
  rwa [Fields.keys_map fun _ => withoutBytes]

theorem asText?_withoutBytes (v : Value) : (withoutBytes v).asText? = v.asText? := by
  cases v with
  | scalar s => cases s <;> rfl
  | _ => rfl

theorem textAt?_withoutBytes (fields : Fields Value) (key : String) :
    Fields.textAt? (fields.map fun e => (e.1, withoutBytes e.2)) key = Fields.textAt? fields key := by
  rw [Fields.textAt?, Fields.get?_map fun _ => withoutBytes, Option.bind_map]
  exact congrArg _ (funext asText?_withoutBytes)

/-! ### References -/

section

variable {P : String → Prop}

mutual

/-- **Writing a value anew adds no references to it.** -/
theorem refsAt_withoutBytes (key : String) : (v : Value) → RefsAt P key v →
    RefsAt P key (withoutBytes v)
  | .scalar s, h => by
      unfold withoutBytes
      split
      · refine refsAt_list fun w hw => ?_
        obtain ⟨b, -, rfl⟩ := List.mem_map.mp hw
        exact fun ref hmem => nomatch hmem
      · rename_i hs
        cases hs
        exact h
      · contradiction
      · contradiction
  | .list vs, h => refsAt_list (refs_itemsWithoutBytes vs (refs_list.mp h))
  | .mapping fields, h => (refsIn_fieldsWithoutBytes fields h).ofEntries.mapping

theorem refs_itemsWithoutBytes : (vs : List Value) → (∀ v ∈ vs, Refs P v) →
    ∀ v ∈ itemsWithoutBytes vs, Refs P v
  | [], h => h
  | v :: rest, h => by
      obtain ⟨hv, hrest⟩ := List.forall_mem_cons.mp h
      exact List.forall_mem_cons.mpr ⟨(refsAt_withoutBytes "" v (hv.refsAt (by decide))).refs,
        refs_itemsWithoutBytes rest hrest⟩

theorem refsIn_fieldsWithoutBytes : (fields : List (String × Value)) → RefsIn P fields →
    RefsIn P (fieldsWithoutBytes fields)
  | [], h => h
  | (key, v) :: rest, h => by
      obtain ⟨hv, hrest⟩ := refsIn_cons.mp h
      exact .cons key (refsAt_withoutBytes key v hv) (refsIn_fieldsWithoutBytes rest hrest)

end

end

/-! ### Documents that can be linked -/

theorem misplaced?_list {vs : List Value} :
    misplaced? (.list vs) = none ↔ ∀ v ∈ vs, misplaced? v = none := by
  rw [misplaced?]
  induction vs with
  | nil => simp [misplacedItem?]
  | cons v rest ih => rw [misplacedItem?, Option.or_eq_none_iff, ih, List.forall_mem_cons]

theorem misplaced?_mapping {fields : Fields Value} :
    misplaced? (.mapping fields) = none
      ↔ (∀ e ∈ fields, misplaced? e.2 = none) ∧ (Fields.get? fields refKey).bind refText? = none := by
  have hfields : misplacedField? fields = none ↔ ∀ e ∈ fields, misplaced? e.2 = none := by
    induction fields with
    | nil => simp [misplacedField?]
    | cons e rest ih => rw [misplacedField?, Option.or_eq_none_iff, ih, List.forall_mem_cons]
  rw [misplaced?, Option.or_eq_none_iff, hfields]

/-- **A document can be linked if no reference stands where the text of one is expected.** -/
theorem ofFields_eq_ok {fields : Fields Value} {linked : Linked} :
    ofFields fields = .ok linked
      ↔ linked = ⟨withoutBytes (.mapping fields)⟩ ∧ misplaced? linked.document = none := by
  unfold ofFields
  dsimp only
  constructor
  · intro h
    split at h
    · cases h
    · rename_i hnone
      cases h
      exact ⟨rfl, hnone⟩
  · rintro ⟨rfl, hnone⟩
    rw [hnone]

end ApiClientGen.Reference.Linked
