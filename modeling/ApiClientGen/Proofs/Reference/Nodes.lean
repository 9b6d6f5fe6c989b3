/-
The nodes of a document.

All nodes of a document are listed once, each before the nodes inside of it.  There are as
many nodes of a kind as the document has values of the kind, and with a node all its parts
are in the list.  So whatever is reached in a document by steps and references is one of
finitely many nodes; the only other nodes that a pointer reaches are the characters of texts,
which have no parts and refer to nothing.

The steps from the root to a node can be taken again from the root.  A list has one item with an
index, and a mapping whose keys are distinct one value under a key, so that the steps lead to the
same value every time, and a node of a document is known by its place alone.
-/
import Mathlib.Data.List.Basic
import ApiClientGen.Document.Raw
import ApiClientGen.Proofs.Document.Answers
import ApiClientGen.Proofs.Document.Tables
import ApiClientGen.Reference.Resolve

namespace ApiClientGen.Reference

open ApiClientGen.Document

/-- Nodes are equal if their places and their values are. -/
instance : DecidableEq Node := fun a b =>
  decidable_of_iff (a.place = b.place ∧ a.value = b.value) (by cases a; cases b; simp)

/-! ### Listing nodes -/

mutual

/-- The nodes in a value that stands at a place, the value itself first. -/
def nodesOf (place : Place) : Value → List Node
  | .scalar v => [⟨place, .scalar v⟩]
  | .list vs => ⟨place, .list vs⟩ :: nodesOfItems place 0 vs
  | .mapping fields => ⟨place, .mapping fields⟩ :: nodesOfFields place fields

/-- The nodes in some items, the first of which has the index given. -/
def nodesOfItems (place : Place) (index : Nat) : List Value → List Node
  | [] => []
  | v :: rest => nodesOf (.item index :: place) v ++ nodesOfItems place (index + 1) rest

/-- The nodes in some fields. -/
def nodesOfFields (place : Place) : List (String × Value) → List Node
  | [] => []
  | (key, v) :: rest => nodesOf (.field key :: place) v ++ nodesOfFields place rest

end

/-- The nodes of a document. -/
def nodes (document : Value) : List Node := nodesOf [] document

/-- The nodes of a document with values of a kind. -/
def nodesOfKind (kind : Value → Bool) (document : Value) : List Node :=
  (nodes document).filter fun n => kind n.value

theorem self_mem_nodesOf (place : Place) (v : Value) : ⟨place, v⟩ ∈ nodesOf place v := by
  cases v <;> simp [nodesOf]

mutual

theorem length_nodesOf (kind : Value → Bool) (place : Place) :
    (v : Value) → ((nodesOf place v).filter fun n => kind n.value).length = countOf kind v
  | .scalar v => by
      cases h : kind (.scalar v) <;> simp [nodesOf, countOf, h]
  | .list vs => by
      have ih := length_nodesOfItems kind place 0 vs
      cases h : kind (.list vs) <;> simp [nodesOf, countOf, h, ih, Nat.add_comm]
  | .mapping fields => by
      have ih := length_nodesOfFields kind place fields
      cases h : kind (.mapping fields) <;> simp [nodesOf, countOf, h, ih, Nat.add_comm]

theorem length_nodesOfItems (kind : Value → Bool) (place : Place) (index : Nat) :
    (vs : List Value) →
      ((nodesOfItems place index vs).filter fun n => kind n.value).length = countOfItems kind vs
  | [] => rfl
  | v :: rest => by
      rw [nodesOfItems, List.filter_append, List.length_append, length_nodesOf kind _ v,
        length_nodesOfItems kind place _ rest, countOfItems]

theorem length_nodesOfFields (kind : Value → Bool) (place : Place) :
    (fields : List (String × Value)) →
      ((nodesOfFields place fields).filter fun n => kind n.value).length = countOfFields kind fields
  | [] => rfl
  | (key, v) :: rest => by
      rw [nodesOfFields, List.filter_append, List.length_append, length_nodesOf kind _ v,
        length_nodesOfFields kind place rest, countOfFields]

end

/-- A document has as many nodes of a kind as values. -/
theorem length_nodesOfKind (kind : Value → Bool) (document : Value) :
    (nodesOfKind kind document).length = countOf kind document :=
  length_nodesOf kind [] document

/-! ### Parts of nodes -/

/-- The node under a key is found by its name. -/
theorem get?_fields_node (n : Node) (key : String) : Fields.get? n.fields key = n.field? key := by
  unfold Node.fields Node.field?
  induction n.value.asFields with
  | nil => rfl
  | cons e rest ih =>
      obtain ⟨k, v⟩ := e
      by_cases h : k = key
      · subst h
        simp [Fields.get?]
      · simpa [Fields.get?, h] using ih

/-- A node that has fields is one that names lead into. -/
theorem part?_of_get?_fields {n m : Node} {key : String} (h : Fields.get? n.fields key = some m) :
    n.part? key = some m := by
  rw [get?_fields_node] at h
  cases hvalue : n.value with
  | mapping fields =>
      rw [Node.part?, hvalue]
      exact h
  | list vs =>
      rw [Node.field?, hvalue] at h
      cases h
  | scalar v =>
      rw [Node.field?, hvalue] at h
      cases h

mutual

/-- The nodes in a node of a value are nodes of the value. -/
theorem nodesOf_subset {n : Node} (place : Place) :
    (v : Value) → n ∈ nodesOf place v → nodesOf n.place n.value ⊆ nodesOf place v
  | .scalar v, h => by
      rw [List.mem_singleton.mp h]
      exact List.Subset.refl _
  | .list vs, h => by
      rcases List.mem_cons.mp h with rfl | hin
      · exact List.Subset.refl _
      · exact List.Subset.trans (nodesOfItems_subset place 0 vs hin) (List.subset_cons_self _ _)
  | .mapping fields, h => by
      rcases List.mem_cons.mp h with rfl | hin
      · exact List.Subset.refl _
      · exact List.Subset.trans (nodesOfFields_subset place fields hin) (List.subset_cons_self _ _)

theorem nodesOfItems_subset {n : Node} (place : Place) (index : Nat) :
    (vs : List Value) → n ∈ nodesOfItems place index vs →
      nodesOf n.place n.value ⊆ nodesOfItems place index vs
  | [], h => by cases h
  | v :: rest, h => by
      rcases List.mem_append.mp h with hfirst | hrest
      · exact List.Subset.trans (nodesOf_subset _ v hfirst) (List.subset_append_left _ _)
      · exact List.Subset.trans (nodesOfItems_subset place _ rest hrest)
          (List.subset_append_right _ _)

theorem nodesOfFields_subset {n : Node} (place : Place) :
    (fields : List (String × Value)) → n ∈ nodesOfFields place fields →
      nodesOf n.place n.value ⊆ nodesOfFields place fields
  | [], h => by cases h
  | (key, v) :: rest, h => by
      rcases List.mem_append.mp h with hfirst | hrest
      · exact List.Subset.trans (nodesOf_subset _ v hfirst) (List.subset_append_left _ _)
      · exact List.Subset.trans (nodesOfFields_subset place rest hrest)
          (List.subset_append_right _ _)

end

theorem nodesOf_subset_nodesOfItems (place : Place) (index i : Nat) {vs : List Value} {v : Value}
    (h : vs[i]? = some v) :
    nodesOf (.item (index + i) :: place) v ⊆ nodesOfItems place index vs := by
  induction vs generalizing index i with
  | nil => simp at h
  | cons w rest ih =>
      cases i with
      | zero =>
          obtain rfl : w = v := by simpa using h
          exact List.subset_append_left _ _
      | succ i =>
          have hrest := ih (index + 1) i (by simpa using h)
          rw [Nat.add_assoc, Nat.add_comm 1 i] at hrest
          exact List.Subset.trans hrest (List.subset_append_right _ _)

theorem nodesOf_subset_nodesOfFields {place : Place} {fields : List (String × Value)}
    {e : String × Value} (h : e ∈ fields) :
    nodesOf (.field e.1 :: place) e.2 ⊆ nodesOfFields place fields := by
  induction fields with
  | nil => cases h
  | cons f rest ih =>
      rcases List.mem_cons.mp h with rfl | hrest
      · exact List.subset_append_left _ _
      · exact List.Subset.trans (ih hrest) (List.subset_append_right _ _)

theorem mem_nodesOf_of_mem_asFields {n : Node} {e : String × Value} (he : e ∈ n.value.asFields) :
    ⟨.field e.1 :: n.place, e.2⟩ ∈ nodesOf n.place n.value := by
  cases hvalue : n.value with
  | scalar v => simp [hvalue, Value.asFields] at he
  | list vs => simp [hvalue, Value.asFields] at he
  | mapping fields =>
      rw [hvalue] at he
      exact List.mem_cons_of_mem _ (nodesOf_subset_nodesOfFields he (self_mem_nodesOf _ _))

theorem mem_nodesOf_of_mem_fields {n : Node} {e : String × Node} (he : e ∈ n.fields) :
    e.2 ∈ nodesOf n.place n.value := by
  obtain ⟨f, hf, rfl⟩ := List.mem_map.mp he
  exact mem_nodesOf_of_mem_asFields hf

theorem mem_nodesOf_of_getElem? {n : Node} {vs : List Value} (hvalue : n.value = .list vs) {i : Nat}
    {v : Value} (hv : vs[i]? = some v) : ⟨.item i :: n.place, v⟩ ∈ nodesOf n.place n.value := by
  rw [hvalue]
  have hsub := nodesOf_subset_nodesOfItems n.place 0 i hv
  rw [Nat.zero_add] at hsub
  exact List.mem_cons_of_mem _ (hsub (self_mem_nodesOf _ _))

theorem mem_nodesOf_of_mem_items {n m : Node} (hm : m ∈ n.items) : m ∈ nodesOf n.place n.value := by
  obtain ⟨place, value⟩ := n
  cases value with
  | scalar v => simp [Node.items, Value.asItems] at hm
  | mapping fields => simp [Node.items, Value.asItems] at hm
  | list vs =>
      obtain ⟨i, hi, rfl⟩ := List.mem_mapIdx.mp hm
      exact mem_nodesOf_of_getElem? rfl (List.getElem?_eq_getElem hi)

/-- The nodes in a node of the document are nodes of the document. -/
theorem mem_nodes {document : Value} {n m : Node} (hn : n ∈ nodes document)
    (hm : m ∈ nodesOf n.place n.value) : m ∈ nodes document :=
  nodesOf_subset [] document hn hm

/-- The places of the mappings in a document. -/
def mappingPlaces (document : Value) : List Place :=
  (nodesOfKind Value.isMapping document).map Node.place

theorem length_mappingPlaces (document : Value) :
    (mappingPlaces document).length = mappingCount document := by
  rw [mappingPlaces, List.length_map, length_nodesOfKind, mappingCount]

theorem mem_mappingPlaces {document : Value} {place : Place} :
    place ∈ mappingPlaces document
      ↔ ∃ n ∈ nodes document, n.value.isMapping = true ∧ n.place = place := by
  simp only [mappingPlaces, nodesOfKind, List.mem_map, List.mem_filter, and_assoc]

/-! ### What is reached in a document -/

/-- A node of a document, or a value without parts. -/
def Located (document : Value) (n : Node) : Prop :=
  n ∈ nodes document ∨ ∃ v, n.value = .scalar v

namespace Located

variable {document : Value} {n : Node}

theorem root (document : Value) : Located document (.root document) :=
  Or.inl (self_mem_nodesOf [] document)

theorem mem_of_ne_scalar (h : Located document n) (hvalue : ∀ v, n.value ≠ .scalar v) :
    n ∈ nodes document :=
  h.resolve_right fun ⟨v, hv⟩ => hvalue v hv

theorem mem_of_isMapping (h : Located document n) (hmapping : n.value.isMapping = true) :
    n ∈ nodes document := by
  refine h.mem_of_ne_scalar fun v hv => ?_
  rw [hv] at hmapping
  cases hmapping

theorem place_mem (h : Located document n) (hmapping : n.value.isMapping = true) :
    n.place ∈ mappingPlaces document :=
  mem_mappingPlaces.mpr ⟨n, h.mem_of_isMapping hmapping, hmapping, rfl⟩

/-- The nodes in a node that is reached are reached. -/
theorem of_mem (h : Located document n) {m : Node} (hm : m ∈ nodesOf n.place n.value) :
    Located document m := by
  rcases h with hmem | ⟨v, hv⟩
  · exact Or.inl (mem_nodes hmem hm)
  · rw [hv] at hm
    exact Or.inr ⟨v, by rw [List.mem_singleton.mp hm]⟩

theorem field (h : Located document n) {e : String × Node} (he : e ∈ n.fields) :
    Located document e.2 :=
  h.of_mem (mem_nodesOf_of_mem_fields he)

theorem field? (h : Located document n) {key : String} {m : Node} (hm : n.field? key = some m) :
    Located document m := by
  obtain ⟨v, hv, rfl⟩ := Option.map_eq_some_iff.mp hm
  exact h.of_mem (mem_nodesOf_of_mem_asFields (Fields.mem_of_get? hv))

theorem item (h : Located document n) {m : Node} (hm : m ∈ n.items) : Located document m :=
  h.of_mem (mem_nodesOf_of_mem_items hm)

/-- A part of a pointer leads from a node that is reached to one that is. -/
theorem part? (h : Located document n) {part : String} {m : Node} (hm : n.part? part = some m) :
    Located document m := by
  unfold Node.part? at hm
  split at hm
  · exact h.field? hm
  · rename_i vs hvalue
    obtain ⟨i, -, hm⟩ := Option.bind_eq_some_iff.mp hm
    obtain ⟨v, hv, hm⟩ := Option.bind_eq_some_iff.mp hm
    cases hm
    exact h.of_mem (mem_nodesOf_of_getElem? hvalue hv)
  · obtain ⟨i, -, hm⟩ := Option.bind_eq_some_iff.mp hm
    obtain ⟨c, -, hm⟩ := Option.bind_eq_some_iff.mp hm
    cases hm
    exact Or.inr ⟨_, rfl⟩
  · cases hm

end Located

/-! ### Keys -/

/-- The keys of every mapping are distinct. -/
def KeysDistinct (ns : List Node) : Prop := ∀ n ∈ ns, (Fields.keys n.value.asFields).Nodup

theorem keysDistinct_nodesOfFields {place : Place} {fields : List (String × Value)}
    (h : ∀ e ∈ fields, ∀ place, KeysDistinct (nodesOf place e.2)) :
    KeysDistinct (nodesOfFields place fields) := by
  induction fields with
  | nil => exact fun n hn => nomatch hn
  | cons e rest ih =>
      intro n hn
      rcases List.mem_append.mp hn with hfirst | hrest
      · exact h e (by simp) _ n hfirst
      · exact ih (fun f hf => h f (List.mem_cons_of_mem _ hf)) n hrest

theorem keysDistinct_scalar (place : Place) (v : Scalar) :
    KeysDistinct (nodesOf place (.scalar v)) := by
  intro n hn
  rw [List.mem_singleton.mp hn]
  exact List.nodup_nil

theorem keysDistinct_nodesOfItems {place : Place} {index : Nat} {vs : List Value}
    (h : ∀ v ∈ vs, ∀ place, KeysDistinct (nodesOf place v)) :
    KeysDistinct (nodesOfItems place index vs) := by
  induction vs generalizing index with
  | nil => exact fun n hn => nomatch hn
  | cons v rest ih =>
      intro n hn
      rcases List.mem_append.mp hn with hfirst | hrest
      · exact h v (by simp) _ n hfirst
      · exact ih (fun w hw => h w (List.mem_cons_of_mem _ hw)) n hrest

theorem keysDistinct_list {place : Place} {vs : List Value}
    (h : ∀ v ∈ vs, ∀ place, KeysDistinct (nodesOf place v)) :
    KeysDistinct (nodesOf place (.list vs)) := by
  intro n hn
  rcases List.mem_cons.mp hn with rfl | hin
  · exact List.nodup_nil
  · exact keysDistinct_nodesOfItems h n hin

mutual

/-- A value written anew has mappings with distinct keys only. -/
theorem keysDistinct_withoutBytes :
    (v : Value) → ∀ place, KeysDistinct (nodesOf place (Linked.withoutBytes v))
  | .scalar v => by
      intro place
      unfold Linked.withoutBytes
      split
      · refine keysDistinct_list fun w hw place => ?_
        obtain ⟨b, -, rfl⟩ := List.mem_map.mp hw
        exact keysDistinct_scalar _ _
      · exact keysDistinct_scalar _ _
      · contradiction
      · contradiction
  | .list vs => by
      intro place
      exact keysDistinct_list (keysDistinct_itemsWithoutBytes vs)
  | .mapping fields => by
      intro place n hn
      rcases List.mem_cons.mp hn with rfl | hin
      · exact Fields.nodup_keys_ofEntries _
      · refine keysDistinct_nodesOfFields (fun e he => ?_) n hin
        exact keysDistinct_fieldsWithoutBytes fields e (Fields.mem_ofEntries he)

theorem keysDistinct_itemsWithoutBytes :
    (vs : List Value) → ∀ v ∈ Linked.itemsWithoutBytes vs, ∀ place, KeysDistinct (nodesOf place v)
  | [] => fun v hv => nomatch hv
  | w :: rest => by
      intro v hv
      rcases List.mem_cons.mp hv with rfl | hrest
      · exact keysDistinct_withoutBytes w
      · exact keysDistinct_itemsWithoutBytes rest v hrest

theorem keysDistinct_fieldsWithoutBytes :
    (fields : List (String × Value)) → ∀ e ∈ Linked.fieldsWithoutBytes fields,
      ∀ place, KeysDistinct (nodesOf place e.2)
  | [] => fun e he => nomatch he
  | (key, w) :: rest => by
      intro e he
      rcases List.mem_cons.mp he with rfl | hrest
      · exact keysDistinct_withoutBytes w
      · exact keysDistinct_fieldsWithoutBytes rest e hrest

end

/-- A document that is linked has mappings with distinct keys only. -/
theorem keysDistinct_ofFields {fields : Fields Value} {linked : Linked}
    (h : Linked.ofFields fields = .ok linked) : KeysDistinct (nodes linked.document) := by
  unfold Linked.ofFields at h
  dsimp only at h
  split at h
  · cases h
  · cases h
    exact keysDistinct_withoutBytes _ []

mutual

/-- A value that is read has mappings with distinct keys only. -/
theorem keysDistinct_plain : (raw : RawValue) → (depth : Nat) → ∀ {v}, raw.plain depth = .ok v →
    ∀ place, KeysDistinct (nodesOf place v)
  | .scalar s, depth, v, h => by
      intro place
      unfold RawValue.plain at h
      split at h
      · cases h
      · cases h
        exact keysDistinct_scalar place s
  | .list items, depth, v, h => by
      intro place
      unfold RawValue.plain at h
      split at h
      · cases h
      · obtain ⟨vs, hvs, h⟩ := except_bind_ok.mp h
        cases h
        exact keysDistinct_list (keysDistinct_plainItems items (depth + 1) hvs)
  | .mapping entries, depth, v, h => by
      intro place n hn
      unfold RawValue.plain at h
      split at h
      · cases h
      · obtain ⟨fields, hfields, h⟩ := except_bind_ok.mp h
        cases h
        rcases List.mem_cons.mp hn with rfl | hin
        · exact Fields.nodup_keys_ofEntries _
        · exact keysDistinct_nodesOfFields (fun e he => keysDistinct_plainEntries entries (depth + 1)
            hfields e (Fields.mem_ofEntries he)) n hin

theorem keysDistinct_plainItems : (items : List RawValue) → (depth : Nat) →
    ∀ {vs}, plainItems depth items = .ok vs → ∀ v ∈ vs, ∀ place, KeysDistinct (nodesOf place v)
  | [], depth, vs, h => by
      cases h
      exact fun v hv => nomatch hv
  | raw :: rest, depth, vs, h => by
      obtain ⟨first, hfirst, h⟩ := except_bind_ok.mp h
      obtain ⟨others, hothers, h⟩ := except_bind_ok.mp h
      cases h
      exact List.forall_mem_cons.mpr
        ⟨keysDistinct_plain raw depth hfirst, keysDistinct_plainItems rest depth hothers⟩

theorem keysDistinct_plainEntries : (entries : List (Scalar × RawValue)) → (depth : Nat) →
    ∀ {fields}, plainEntries depth entries = .ok fields →
      ∀ e ∈ fields, ∀ place, KeysDistinct (nodesOf place e.2)
  | [], depth, fields, h => by
      cases h
      exact fun e he => nomatch he
  | (key, raw) :: rest, depth, fields, h => by
      obtain ⟨text, -, h⟩ := except_bind_ok.mp h
      obtain ⟨first, hfirst, h⟩ := except_bind_ok.mp h
      obtain ⟨others, hothers, h⟩ := except_bind_ok.mp h
      cases h
      exact List.forall_mem_cons.mpr
        ⟨keysDistinct_plain raw depth hfirst, keysDistinct_plainEntries rest depth hothers⟩

end

/-! ### Nodes by their places -/

/-- The value that steps lead to, the first step first. -/
def valueAt? : Value → List Step → Option Value
  | v, [] => some v
  | v, .field key :: steps => (Fields.get? v.asFields key).bind (valueAt? · steps)
  | v, .item i :: steps => v.asItems[i]?.bind (valueAt? · steps)

/-- A node is reached by the steps from a place to it. -/
def IsReachedFrom (place : Place) (v : Value) (n : Node) : Prop :=
  ∃ steps, n.place = steps.reverse ++ place ∧ valueAt? v steps = some n.value

theorem IsReachedFrom.step {place : Place} {v w : Value} {n : Node} {step : Step}
    (hstep : ∀ steps, valueAt? v (step :: steps) = valueAt? w steps)
    (h : IsReachedFrom (step :: place) w n) : IsReachedFrom place v n := by
  obtain ⟨steps, hplace, hvalue⟩ := h
  exact ⟨step :: steps, by simp [hplace], (hstep steps).trans hvalue⟩

mutual

/-- Every node in a value is reached by the steps to it. -/
theorem isReachedFrom_of_mem_nodesOf (place : Place) :
    (v : Value) → KeysDistinct (nodesOf place v) → ∀ n ∈ nodesOf place v, IsReachedFrom place v n
  | .scalar v, _, n, hn => by
      rw [List.mem_singleton.mp hn]
      exact ⟨[], rfl, rfl⟩
  | .list vs, h, n, hn => by
      rcases List.mem_cons.mp hn with rfl | hn
      · exact ⟨[], rfl, rfl⟩
      · obtain ⟨i, w, hget, hreached⟩ := exists_of_mem_nodesOfItems place 0 vs
          (fun m hm => h m (List.mem_cons_of_mem _ hm)) n hn
        rw [Nat.zero_add] at hreached
        refine hreached.step fun steps => ?_
        rw [valueAt?, Value.asItems, hget, Option.bind_some]
  | .mapping fields, h, n, hn => by
      rcases List.mem_cons.mp hn with rfl | hn
      · exact ⟨[], rfl, rfl⟩
      · obtain ⟨e, he, hreached⟩ := exists_of_mem_nodesOfFields place fields
          (fun m hm => h m (List.mem_cons_of_mem _ hm)) n hn
        have hnodup : (Fields.keys fields).Nodup := h ⟨place, .mapping fields⟩ (by simp [nodesOf])
        refine hreached.step fun steps => ?_
        rw [valueAt?, Value.asFields, Fields.get?_of_mem hnodup he, Option.bind_some]

/-- Every node in some items is reached by the steps from one of them. -/
theorem exists_of_mem_nodesOfItems (place : Place) (index : Nat) :
    (vs : List Value) → KeysDistinct (nodesOfItems place index vs) →
      ∀ n ∈ nodesOfItems place index vs,
        ∃ i w, vs[i]? = some w ∧ IsReachedFrom (.item (index + i) :: place) w n
  | [], _, n, hn => nomatch hn
  | v :: rest, h, n, hn => by
      rcases List.mem_append.mp hn with hfirst | hrest
      · exact ⟨0, v, rfl, isReachedFrom_of_mem_nodesOf _ v
          (fun m hm => h m (List.mem_append_left _ hm)) n hfirst⟩
      · obtain ⟨i, w, hget, hreached⟩ := exists_of_mem_nodesOfItems place (index + 1) rest
          (fun m hm => h m (List.mem_append_right _ hm)) n hrest
        refine ⟨i + 1, w, by simpa using hget, ?_⟩
        rwa [show index + (i + 1) = index + 1 + i by omega]

/-- Every node in some fields is reached by the steps from one of them. -/
theorem exists_of_mem_nodesOfFields (place : Place) :
    (fields : List (String × Value)) → KeysDistinct (nodesOfFields place fields) →
      ∀ n ∈ nodesOfFields place fields,
        ∃ e ∈ fields, IsReachedFrom (.field e.1 :: place) e.2 n
  | [], _, n, hn => nomatch hn
  | (key, v) :: rest, h, n, hn => by
      rcases List.mem_append.mp hn with hfirst | hrest
      · exact ⟨(key, v), by simp, isReachedFrom_of_mem_nodesOf _ v
          (fun m hm => h m (List.mem_append_left _ hm)) n hfirst⟩
      · obtain ⟨e, he, hreached⟩ := exists_of_mem_nodesOfFields place rest
          (fun m hm => h m (List.mem_append_right _ hm)) n hrest
        exact ⟨e, List.mem_cons_of_mem _ he, hreached⟩

end

/-- **Nodes of a document at one place are one node.** -/
theorem eq_of_place_eq {document : Value} (h : KeysDistinct (nodes document)) {n m : Node}
    (hn : n ∈ nodes document) (hm : m ∈ nodes document) (hplace : n.place = m.place) : n = m := by
  obtain ⟨steps, hsteps, hvalue⟩ := isReachedFrom_of_mem_nodesOf [] document h n hn
  obtain ⟨steps', hsteps', hvalue'⟩ := isReachedFrom_of_mem_nodesOf [] document h m hm
  rw [hplace, hsteps', List.append_cancel_right_eq, List.reverse_inj] at hsteps
  rw [hsteps, hvalue] at hvalue'
  cases n
  cases m
  simp_all

end ApiClientGen.Reference
