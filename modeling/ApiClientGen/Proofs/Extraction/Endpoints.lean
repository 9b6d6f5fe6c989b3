/-
Which operations there are.

The paths of a description say for which methods they have operations, and a path may be a
reference to where that is said.  On its way into an interface each version treats paths in its
own way: version 3.0 keeps them, version 3.1 changes the schemas in them, and version 2 writes
them anew from their operations.  In the first two an interface has exactly the operations that
the paths of the description have, in their order.  Version 2 forgets that a path is a reference;
so this holds there for paths that are written out, and only for them.
-/
import ApiClientGen.Proofs.Canonical.VersionsAgree
import ApiClientGen.Proofs.Extraction.Lowered
import ApiClientGen.Proofs.Extraction.Parameters

namespace ApiClientGen.Extraction

open ApiClientGen.Canonical ApiClientGen.Document ApiClientGen.Reference
  ApiClientGen.Reference.Linked ApiClientGen.Source ApiClientGen.Spec ApiClientGen.Text

/-! ### Values that look alike -/

/-- Both of two values are mappings or neither is, and they are the same references. -/
def LooksLike (v w : Value) : Prop := v.isMapping = w.isMapping ∧ refText? v = refText? w

/-- Two values look alike, and so does what they have under the methods. -/
structure SameOutline (v w : Value) : Prop where
  looks : LooksLike v w
  methods : ∀ method ∈ methods,
    Option.Rel LooksLike (Fields.get? v.asFields method) (Fields.get? w.asFields method)

/-- The kinds of schemas, and of what may be written in another way. -/
def schemaKinds : List Kind := [.schema, .table .schema, .changing]

theorem under_ne_schema {kind : Kind} (hkind : kind ∉ schemaKinds) :
    ∀ method ∈ methods, kind.under method ≠ .schema := by
  cases kind with
  | table kind =>
      intro method _ hunder
      obtain rfl : kind = .schema := hunder
      exact hkind (by decide)
  | list kind => exact fun method _ hunder => nomatch hunder
  | schema => exact absurd (by decide) hkind
  | _ => decide

section

variable {change : Fields Value → Fields Value} {kind : Kind} {place : Place} {v w : Value}
  {fields : Fields Value} {key : String}

/-- A mapping that is no schema, with its schemas changed and written anew. -/
theorem withoutBytes_mapAt (hkind : kind ≠ .schema) (hnodup : (Fields.keys fields).Nodup) :
    withoutBytes (mapAt change kind (.mapping fields))
      = .mapping (fields.map fun e => (e.1, withoutBytes (mapAt change (kind.under e.1) e.2))) := by
  have hkeys : (Fields.keys (fields.map fun e =>
      (e.1, mapAt change (kind.under e.1) e.2))).Nodup := by
    rwa [Fields.keys_map fun key => mapAt change (kind.under key)]
  rw [mapAt_mapping hkind, withoutBytes_mapping hkeys, List.map_map]
  rfl

theorem get?_withoutBytes_mapAt (hkind : kind ≠ .schema) (hnodup : (Fields.keys fields).Nodup) :
    Fields.get? (withoutBytes (mapAt change kind (.mapping fields))).asFields key
      = (Fields.get? fields key).map fun v => withoutBytes (mapAt change (kind.under key) v) := by
  rw [withoutBytes_mapAt hkind hnodup]
  exact Fields.get?_map (fun key v => withoutBytes (mapAt change (kind.under key) v)) fields key

theorem looksLike_linked (change : Fields Value → Fields Value) (hkind : kind ≠ .schema)
    (hnodup : (Fields.keys v.asFields).Nodup) :
    LooksLike v (withoutBytes (mapAt change kind v)) := by
  cases v with
  | scalar s =>
      rw [mapAt_scalar]
      cases s <;> exact ⟨rfl, rfl⟩
  | list vs =>
      rw [mapAt_list]
      exact ⟨rfl, rfl⟩
  | mapping fields =>
      have hnodup : (Fields.keys fields).Nodup := hnodup
      rw [withoutBytes_mapAt hkind hnodup]
      refine ⟨rfl, ?_⟩
      show Fields.textAt? _ _ = Fields.textAt? _ _
      rw [Fields.textAt?, Fields.textAt?,
        Fields.get?_map fun key v => withoutBytes (mapAt change (kind.under key) v), Option.bind_map]
      refine congrArg _ (funext fun v => ?_)
      rw [Function.comp_apply, asText?_withoutBytes, asText?_mapAt]

/-- What stands under a key of a value with distinct keys has distinct keys itself. -/
theorem keysDistinct_get? (h : KeysDistinct (nodesOf place v))
    (hget : Fields.get? v.asFields key = some w) : KeysDistinct (nodesOf (.field key :: place) w) := by
  intro n hn
  have hmem := mem_nodesOf_of_mem_asFields (n := ⟨place, v⟩) (Fields.mem_of_get? hget)
  exact h n (nodesOf_subset place v hmem hn)

theorem keysDistinct_fieldsAt (h : KeysDistinct (nodes (.mapping fields))) (key : String) :
    KeysDistinct (nodesOf [.field key] (.mapping (Fields.fieldsAt fields key))) := by
  cases hfields : Fields.fieldsAt fields key with
  | nil => exact fun n hn => List.mem_singleton.mp hn ▸ List.nodup_nil
  | cons e rest =>
      have hmem : e ∈ Fields.fieldsAt fields key := by rw [hfields]; exact List.mem_cons_self ..
      have hget := Fields.get?_of_mem_fieldsAt hmem
      rw [← hfields]
      exact keysDistinct_get? (v := .mapping fields) h hget

theorem nodup_keys_of_keysDistinct (h : KeysDistinct (nodesOf place v)) :
    (Fields.keys v.asFields).Nodup :=
  h _ (self_mem_nodesOf place v)

/-- **A value that is no schema keeps its outline** when its schemas are changed. -/
theorem sameOutline_linked (change : Fields Value → Fields Value) (hkind : kind ∉ schemaKinds)
    (h : KeysDistinct (nodesOf place v)) :
    SameOutline v (withoutBytes (mapAt change kind v)) := by
  have hno : kind ≠ .schema := fun heq => hkind (heq ▸ by decide)
  refine ⟨looksLike_linked change hno (nodup_keys_of_keysDistinct h), fun method hmethod => ?_⟩
  cases v with
  | scalar s =>
      rw [mapAt_scalar, asFields_withoutBytes]
      exact .none
  | list vs =>
      rw [mapAt_list, asFields_withoutBytes]
      exact .none
  | mapping fields =>
      have hnodup : (Fields.keys fields).Nodup := nodup_keys_of_keysDistinct h
      rw [get?_withoutBytes_mapAt hno hnodup]
      cases hget : Fields.get? (Value.mapping fields).asFields method with
      | none =>
          rw [show Fields.get? fields method = none from hget]
          exact .none
      | some w =>
          rw [show Fields.get? fields method = some w from hget]
          exact .some (looksLike_linked change (under_ne_schema hkind method hmethod)
            (nodup_keys_of_keysDistinct (keysDistinct_get? h hget)))

end

/-! ### Values behind references -/

/-- Where parts of a pointer lead in a value, through mappings that are no references. -/
def valueAlong (v : Value) : List String → Option Value
  | [] => some v
  | part :: rest =>
    if refText? v = none then (Fields.get? v.asFields part).bind fun w => valueAlong w rest else none

/-- No part of a pointer leads to a schema, or to a place that may be written in another way. -/
def PassesNoSchema (kind : Kind) : List String → Prop
  | [] => kind ∉ schemaKinds
  | part :: rest => kind ∉ schemaKinds ∧ PassesNoSchema (kind.under part) rest

/--
**A reference into a description points at a value**: among the paths, the components or the
extensions, but not at a schema.
-/
structure PointsAt (content : Fields Value) (ref : String) (v : Value) : Prop where
  parts : ∃ pointer key part rest, ref = "#" ++ pointer ∧ IsWithout ['\t', '\r', '\n'] pointer
    ∧ pointerParts pointer = key :: part :: rest
    ∧ (key = "paths" ∨ key = "components" ∨ isExtension key = true)
    ∧ PassesNoSchema (Kind.document.under key) (part :: rest)
    ∧ (Fields.get? content key).bind (valueAlong · (part :: rest)) = some v

/-- **What stands behind a value of a description**: itself, or what it points at as a reference. -/
inductive StandsBehind (content : Fields Value) : Value → Value → Prop where
  | itself {v : Value} (plain : refText? v = none) : StandsBehind content v v
  | reference {v w target : Value} {ref : String} (text : refText? v = some ref)
      (points : PointsAt content ref w) (behind : StandsBehind content w target) :
      StandsBehind content v target

section

variable {v w : Value} {part : String} {parts rest : List String}

theorem valueAlong_cons_eq_some :
    valueAlong v (part :: rest) = some w
      ↔ refText? v = none ∧ ∃ x, Fields.get? v.asFields part = some x ∧ valueAlong x rest = some w := by
  rw [valueAlong]
  split
  · rename_i hplain
    rw [Option.bind_eq_some_iff]
    simp only [hplain, true_and]
  · rename_i href
    simp only [href, false_and, reduceCtorEq]

theorem valueAlong_cons_eq_mapping (h : valueAlong v (part :: rest) = some w) :
    ∃ fields, v = .mapping fields ∧ fields ≠ [] := by
  obtain ⟨-, x, hget, -⟩ := valueAlong_cons_eq_some.mp h
  cases v with
  | mapping fields =>
      refine ⟨fields, rfl, ?_⟩
      rintro rfl
      cases hget
  | _ => cases hget

/-- A pointer that meets no references leads to the value that stands there. -/
theorem walk_of_valueAlong {f : Node → Except Fault Node} (hf : ∀ n, n.ref? = none → f n = .ok n)
    (ref pointer : String) (self place : Place) (h : valueAlong v parts = some w) :
    ∃ reached, walk f ref pointer self ⟨place, v⟩ parts = .ok ⟨reached, w⟩ := by
  induction parts generalizing v place with
  | nil =>
      cases h
      exact ⟨place, rfl⟩
  | cons part rest ih =>
      obtain ⟨hplain, x, hget, hrest⟩ := valueAlong_cons_eq_some.mp h
      obtain ⟨fields, rfl, -⟩ := valueAlong_cons_eq_mapping h
      have hpart : Node.part? ⟨place, .mapping fields⟩ part = some ⟨.field part :: place, x⟩ := by
        show (Fields.get? fields part).map _ = _
        rw [show Fields.get? fields part = some x from hget]
        rfl
      obtain ⟨reached, hreached⟩ := ih (.field part :: place) hrest
      refine ⟨reached, ?_⟩
      have hself : Node.ref? ⟨place, .mapping fields⟩ = none := hplain
      rw [walk_cons_of_self (hf _ hself), stepTo, hpart]
      exact hreached

theorem passesNoSchema_plain (parts : List String) : PassesNoSchema .plain parts := by
  induction parts with
  | nil => exact (by decide : Kind.plain ∉ schemaKinds)
  | cons part rest ih => exact ⟨by decide, ih⟩

/-- **A pointer that passes no schema** leads to the same value when schemas are changed. -/
theorem valueAlong_linked (change : Fields Value → Fields Value) {kind : Kind} {place : Place}
    (hdistinct : KeysDistinct (nodesOf place v)) (hparts : PassesNoSchema kind parts)
    (h : valueAlong v parts = some w) :
    ∃ kind' place', kind' ∉ schemaKinds ∧ KeysDistinct (nodesOf place' w)
      ∧ valueAlong (withoutBytes (mapAt change kind v)) parts
        = some (withoutBytes (mapAt change kind' w)) := by
  induction parts generalizing v kind place with
  | nil =>
      cases h
      exact ⟨kind, place, hparts, hdistinct, rfl⟩
  | cons part rest ih =>
      obtain ⟨hkind, hrest⟩ := hparts
      obtain ⟨hplain, x, hget, hx⟩ := valueAlong_cons_eq_some.mp h
      obtain ⟨fields, rfl, -⟩ := valueAlong_cons_eq_mapping h
      obtain ⟨kind', place', hkind', hdistinct', hw⟩ := ih (keysDistinct_get? hdistinct hget) hrest hx
      have hnodup : (Fields.keys fields).Nodup := nodup_keys_of_keysDistinct hdistinct
      have hno : kind ≠ .schema := fun heq => hkind (heq ▸ by decide)
      refine ⟨kind', place', hkind', hdistinct', valueAlong_cons_eq_some.mpr ⟨?_, _, ?_, hw⟩⟩
      · rw [← (looksLike_linked (v := .mapping fields) change hno hnodup).2, hplain]
      · rw [get?_withoutBytes_mapAt hno hnodup, show Fields.get? fields part = some x from hget]
        rfl

end

/-- Whether a path has an operation for a method. -/
def hasOperation (item : Value) (method : String) : Bool :=
  (Fields.get? item.asFields method).any Value.isMapping

/-! ### Versions 3.0 and 3.1 -/

section

variable {d : Description} (hversion : d.version ≠ .swagger2)
  (hdistinct : KeysDistinct (nodes (.mapping d.content)))

/-- The kind by which a part of a description is changed. -/
def kindIn (version : Version) (key : String) : Kind :=
  if version = .openapi31 then Kind.document.under key else .plain

include hversion hdistinct

/-- A part of a description is there in its canonical form, with its schemas changed. -/
theorem get?_fields_upgrade_of_mapping {key : String}
    (hkey : key = "paths" ∨ key = "components" ∨ isExtension key = true) (hhooks : key ≠ "x-webhooks")
    {fields : Fields Value} (hget : Fields.get? d.content key = some (.mapping fields))
    (hne : fields ≠ []) :
    Fields.get? (upgrade d).fields key
      = some (mapAt downgradeSchema (kindIn d.version key) (.mapping fields)) := by
  obtain ⟨version, content⟩ := d
  have hnodup : (Fields.keys content).Nodup := nodup_keys_of_keysDistinct hdistinct
  have hplain : Fields.get? (upgrade ⟨.openapi30, content⟩).fields key = some (.mapping fields) := by
    have hsorted := CanonicalDocument.isSorted_ofFields content
    show Fields.get? (CanonicalDocument.ofFields content).fields key = _
    rcases hkey with rfl | rfl | hext
    · rw [CanonicalDocument.get?_fields hsorted (by decide), CanonicalDocument.get?_fixedFields]
      simp [Fields.get?, CanonicalDocument.ofFields, Fields.fieldsAt_of_get? hget]
    · rw [CanonicalDocument.get?_fields hsorted (by decide), CanonicalDocument.get?_fixedFields]
      simp [Fields.get?, CanonicalDocument.ofFields, Fields.fieldsAt_of_get? hget, hne]
    · refine Fields.get?_of_mem (CanonicalDocument.nodup_keys_fields _) ?_
      have hmem : (key, Value.mapping fields) ∈ content.filter fun e => isExtension e.1 :=
        List.mem_filter.mpr ⟨Fields.mem_of_get? hget, hext⟩
      rw [CanonicalDocument.fields_eq_append hsorted]
      refine List.mem_append_right _ ?_
      show _ ∈ extensions content
      rwa [extensions_eq_filter hnodup]
  cases version with
  | swagger2 => exact absurd rfl hversion
  | openapi30 => exact hplain
  | openapi31 =>
      rw [get?_fields_upgrade_openapi31 hnodup hhooks, hplain]
      rfl

/-- The paths of a description are there in its canonical form, even if there are none. -/
theorem get?_fields_upgrade_paths :
    Fields.get? (upgrade d).fields "paths"
      = some (mapAt downgradeSchema (kindIn d.version "paths")
          (.mapping (Fields.fieldsAt d.content "paths"))) := by
  obtain ⟨version, content⟩ := d
  have hplain : Fields.get? (upgrade ⟨.openapi30, content⟩).fields "paths"
      = some (.mapping (Fields.fieldsAt content "paths")) := by
    have hsorted := CanonicalDocument.isSorted_ofFields content
    show Fields.get? (CanonicalDocument.ofFields content).fields "paths" = _
    rw [CanonicalDocument.get?_fields hsorted (by decide), CanonicalDocument.get?_fixedFields]
    rfl
  cases version with
  | swagger2 => exact absurd rfl hversion
  | openapi30 => exact hplain
  | openapi31 =>
      have hnodup : (Fields.keys content).Nodup := nodup_keys_of_keysDistinct hdistinct
      rw [get?_fields_upgrade_openapi31 hnodup (by decide), hplain]
      rfl

/-- **A reference that points at a value** leads to it in the linked document, up to schemas. -/
theorem PointsAt.exists_linked {ref : String} {v : Value} (h : PointsAt d.content ref v) :
    ∃ pointer kind place, ref = "#" ++ pointer ∧ IsWithout ['\t', '\r', '\n'] pointer
      ∧ kind ∉ schemaKinds ∧ KeysDistinct (nodesOf place v)
      ∧ valueAlong (.mapping (linkedFields (upgrade d))) (pointerParts pointer)
        = some (withoutBytes (mapAt downgradeSchema kind v)) := by
  obtain ⟨pointer, key, part, rest, href, hwithout, hpointer, hkey, hpasses, hvalue⟩ := h.parts
  obtain ⟨u, hu, halong⟩ := Option.bind_eq_some_iff.mp hvalue
  obtain ⟨fields, rfl, hne⟩ := valueAlong_cons_eq_mapping halong
  have hhooks : key ≠ "x-webhooks" := by
    rintro rfl
    exact hpasses.1 (by decide)
  have hkind : PassesNoSchema (kindIn d.version key) (part :: rest) := by
    unfold kindIn
    split
    · exact hpasses
    · exact passesNoSchema_plain _
  have hroot : refText? (.mapping (linkedFields (upgrade d))) = none := by
    obtain ⟨fields, hfields⟩ := CanonicalDocument.exists_upgrade_eq_ofFields d
    rw [hfields]
    exact textAt?_ofEntries_fields (CanonicalDocument.isSorted_ofFields _)
  obtain ⟨kind, place, hkind', hdistinct', hlinked⟩ := valueAlong_linked
    downgradeSchema (keysDistinct_get? hdistinct hu) hkind halong
  refine ⟨pointer, kind, place, href, hwithout, hkind', hdistinct', ?_⟩
  rw [hpointer]
  refine valueAlong_cons_eq_some.mpr ⟨hroot, _, ?_, hlinked⟩
  rw [Value.asFields, linkedFields_eq_map, Fields.get?_map fun _ => withoutBytes,
    get?_fields_upgrade_of_mapping hversion hdistinct hkey hhooks hu hne]
  rfl

/--
**What stands behind a value stands behind its node**: that leads to a node with the same outline,
unless it is no reference at all.
-/
theorem StandsBehind.followWithin {v target : Value} (h : StandsBehind d.content v target)
    {length : Nat} {n t : Node} (hn : LooksLike v n.value)
    (hfollow : Linked.followWithin ⟨.mapping (linkedFields (upgrade d))⟩ length n = .ok t) :
    (target = v ∧ t = n) ∨ SameOutline target t.value := by
  induction h generalizing length n with
  | itself plain =>
      have hself : n.ref? = none := hn.2.symm.trans plain
      rw [followWithin_of_none hself] at hfollow
      cases hfollow
      exact Or.inl ⟨rfl, rfl⟩
  | @reference v w target ref text points behind ih =>
      have href : n.ref? = some ref := hn.2.symm.trans text
      obtain ⟨pointer, kind, place, rfl, hwithout, hkind, hdistinct', halong⟩ :=
        points.exists_linked hversion hdistinct
      have houtline := sameOutline_linked downgradeSchema hkind hdistinct'
      cases length with
      | zero =>
          rw [Linked.followWithin, href] at hfollow
          cases hfollow
      | succ length =>
          obtain ⟨reached, hwalk⟩ := walk_of_valueAlong
            (fun n hn => followWithin_of_none (d := ⟨.mapping (linkedFields (upgrade d))⟩) hn length)
            ("#" ++ pointer) pointer n.place [] halong
          rw [followWithin_of_some href, target_fragment hwithout] at hfollow
          obtain ⟨_, ht, hfollow⟩ := except_bind_ok.mp hfollow
          cases ht
          obtain ⟨m, hm, hfollow⟩ := except_bind_ok.mp hfollow
          obtain rfl : _ = m := Except.ok.inj (hwalk.symm.trans hm)
          split at hfollow
          · cases hfollow
          · rcases ih houtline.looks hfollow with ⟨rfl, rfl⟩ | houtline'
            · exact Or.inr houtline
            · exact Or.inr houtline'

/-- A value is a mapping if one stands behind it. -/
theorem isMapping_of_looksLike {b : Bounds} {models : Fields String} {v : Value} {n : Node}
    (hn : LooksLike v n.value)
    (hbehind : v.isMapping = true → ∃ t, StandsBehind d.content v t ∧ t.isMapping = true)
    {isMapping : Bool}
    (h : (scopeOf (linkedFields (upgrade d)) b models).isMapping (some n) = .ok isMapping) :
    isMapping = v.isMapping := by
  obtain ⟨t, ht, rfl⟩ := Scope.isMapping_some_ok h
  cases hmapping : v.isMapping with
  | false =>
      have hplain : refText? v = none := by cases v <;> first | rfl | cases hmapping
      have hself : n.ref? = none := hn.2.symm.trans hplain
      rw [follow_scopeOf hself] at ht
      cases ht
      exact hn.1.symm.trans hmapping
  | true =>
      obtain ⟨target, hbehind, htarget⟩ := hbehind hmapping
      rcases hbehind.followWithin hversion hdistinct hn (except_mapError_ok.mp ht)
        with ⟨rfl, rfl⟩ | houtline
      · exact hn.1.symm.trans hmapping
      · exact houtline.looks.1.symm.trans htarget

/-- The node of a path. -/
def pathNode (version : Version) (e : String × Value) : Node :=
  ⟨[.field e.1, .field "paths"],
    withoutBytes (mapAt downgradeSchema ((kindIn version "paths").under e.1) e.2)⟩

omit hversion hdistinct in
theorem kindIn_paths (version : Version) (path : String) :
    kindIn version "paths" ≠ .schema ∧ (kindIn version "paths").under path ∉ schemaKinds := by
  unfold kindIn
  split
  · exact ⟨by decide, (by decide : Kind.pathItem ∉ schemaKinds)⟩
  · exact ⟨by decide, (by decide : Kind.plain ∉ schemaKinds)⟩

/-- The paths of the linked document. -/
theorem fieldsOf_paths_openapi {b : Bounds} {models : Fields String}
    (hplain : Fields.textAt? (Fields.fieldsAt d.content "paths") refKey = none) :
    (scopeOf (linkedFields (upgrade d)) b models).fieldsOf
        (Fields.get? (Node.root (.mapping (linkedFields (upgrade d)))).fields "paths")
      = .ok ((Fields.fieldsAt d.content "paths").map fun e => (e.1, pathNode d.version e)) := by
  have hno := (kindIn_paths d.version "").1
  have hkeys : (Fields.keys (Fields.fieldsAt d.content "paths")).Nodup :=
    nodup_keys_of_keysDistinct (keysDistinct_fieldsAt hdistinct "paths")
  have hnode : Fields.get? (Node.root (.mapping (linkedFields (upgrade d)))).fields "paths"
      = some ⟨[.field "paths"], withoutBytes (mapAt downgradeSchema (kindIn d.version "paths")
          (.mapping (Fields.fieldsAt d.content "paths")))⟩ := by
    rw [get?_fields_node, Node.field?, Node.root, Value.asFields, linkedFields_eq_map,
      Fields.get?_map fun _ => withoutBytes, get?_fields_upgrade_paths hversion hdistinct]
    rfl
  have hself : Node.ref? ⟨[.field "paths"], withoutBytes (mapAt downgradeSchema
      (kindIn d.version "paths") (.mapping (Fields.fieldsAt d.content "paths")))⟩ = none := by
    have hlooks := looksLike_linked (v := .mapping (Fields.fieldsAt d.content "paths"))
      downgradeSchema hno hkeys
    exact hlooks.2.symm.trans hplain
  rw [hnode, fieldsOf_of_follow (follow_scopeOf hself), withoutBytes_mapAt hno hkeys, Node.fields,
    Value.asFields, List.map_map]
  rfl

/--
**A path has the operations of what stands behind it**, if a mapping stands behind each of them
that is a reference.
-/
theorem isMapping_of_standsBehind {b : Bounds} {models : Fields String} {v target : Value}
    (hbehind : StandsBehind d.content v target)
    (hreferences : ∀ method ∈ methods, ∀ w ∈ Fields.get? target.asFields method,
      w.isMapping = true → ∃ t, StandsBehind d.content w t ∧ t.isMapping = true)
    {n : Node} (hn : SameOutline v n.value) {fields : Fields Node}
    (hfields : (scopeOf (linkedFields (upgrade d)) b models).fieldsOf (some n) = .ok fields) :
    ∀ method ∈ methods, ∀ isMapping,
      (scopeOf (linkedFields (upgrade d)) b models).isMapping (Fields.get? fields method)
        = .ok isMapping → isMapping = hasOperation target method := by
  obtain ⟨t, ht, rfl⟩ := Scope.fieldsOf_some_ok hfields
  have houtline : SameOutline target t.value := by
    rcases hbehind.followWithin hversion hdistinct hn.looks (except_mapError_ok.mp ht)
      with ⟨rfl, rfl⟩ | houtline
    · exact hn
    · exact houtline
  intro method hmethod isMapping hmapping
  rw [get?_fields_node, Node.field?] at hmapping
  unfold hasOperation
  rcases optionRel_cases (houtline.methods method hmethod)
    with ⟨hw, hw'⟩ | ⟨w, w', hw, hw', hlooks⟩
  · rw [hw'] at hmapping
    cases hmapping
    rw [hw]
    rfl
  · rw [hw', Option.map_some] at hmapping
    rw [hw]
    exact isMapping_of_looksLike hversion hdistinct hlooks (hreferences method hmethod w hw) hmapping

end

/-! ### Version 2 -/

section

open Swagger

variable {content item : Fields Value} {b : Bounds} {models : Fields String} {path : String}

/-- A converted path has no operation for a method that it had no mapping for. -/
theorem get?_convertPathItem_eq_none {method : String} (hmethod : method ∈ methods)
    (hno : hasOperation (.mapping item) method = false) :
    Fields.get? (convertPathItem content item) method = none := by
  refine Fields.get?_eq_none fun hmem => ?_
  rcases Fields.mem_keys_update.mp hmem with hmem | hmem
  · obtain ⟨e, he, rfl⟩ := List.mem_map.mp hmem
    obtain ⟨m, -, he⟩ := List.mem_filterMap.mp he
    split at he
    · rename_i operation hget
      cases he
      rw [hasOperation, Value.asFields, hget] at hno
      cases hno
    · cases he
  · exact notMem_keys_extensions item (isExtension_of_mem_methods hmethod) hmem

/-- **A path of version 2 keeps its operations** when it is converted. -/
theorem isMapping_itemNode {fields : Fields Node}
    (hfields : (scopeOf (linkedFields (upgrade ⟨.swagger2, content⟩)) b models).fieldsOf
      (some (itemNode content path item)) = .ok fields) :
    ∀ method ∈ methods, ∀ isMapping,
      (scopeOf (linkedFields (upgrade ⟨.swagger2, content⟩)) b models).isMapping
        (Fields.get? fields method) = .ok isMapping →
          isMapping = hasOperation (.mapping item) method := by
  rw [fieldsOf_of_follow (follow_scopeOf ref?_itemNode)] at hfields
  cases hfields
  intro method hmethod isMapping hmapping
  cases hhas : hasOperation (.mapping item) method with
  | false =>
      rw [itemNode, get?_fields_linked, get?_convertPathItem_eq_none hmethod hhas] at hmapping
      cases hmapping
      rfl
  | true =>
      obtain ⟨v, hget, hv⟩ := (Option.any_eq_true _ _).mp hhas
      obtain ⟨operation, rfl⟩ : ∃ operation, v = .mapping operation := by
        cases v with
        | mapping operation => exact ⟨operation, rfl⟩
        | _ => cases hv
      have hget : Fields.get? item method = some (.mapping operation) := hget
      rw [get?_itemNode hmethod hget, isMapping_of_follow (follow_scopeOf ref?_operationNode)]
        at hmapping
      cases hmapping
      rfl

/-- The nodes of the paths are those of the paths that are mappings. -/
theorem forall₂_itemNodes (content : Fields Value) :
    List.Forall₂ (fun e i => ∃ item, i = (e.1, Value.mapping item) ∧ e.2 = itemNode content e.1 item)
      (Node.fields ⟨[.field "paths"], .mapping ((paths content).map fun e =>
        (e.1, linkedAt e.1 e.2))⟩)
      ((Fields.fieldsAt content "paths").filter fun e => e.2.isMapping) := by
  unfold paths Node.fields Value.asFields
  rw [List.map_map]
  refine List.forall₂_map_left_iff.mpr ?_
  induction Fields.fieldsAt content "paths" with
  | nil => exact .nil
  | cons e rest ih =>
      obtain ⟨key, v⟩ := e
      cases v with
      | mapping item =>
          refine .cons ⟨item, rfl, ?_⟩ ih
          show (⟨_, linkedAt key (.mapping _)⟩ : Node) = _
          rw [linkedAt_mapping (nodup_keys_convertPathItem content item)]
          rfl
      | _ => exact ih

end

/-! ### All versions -/

/-- The paths and methods of the operations that paths have, in their order. -/
def endpointsOf (items : Fields Value) : List (String × String) :=
  items.flatMap fun i => (methods.filter (hasOperation i.2)).map fun method => (i.1, method.toUpper)

/-- The keys of a description that is read are distinct. -/
theorem keysDistinct_of_describe {format : Format} {bytes : ByteArray} {d : Description}
    (h : describe format bytes = .ok d) : KeysDistinct (nodes (.mapping d.content)) := by
  unfold describe at h
  split at h
  · obtain ⟨raw, -, h⟩ := except_bind_ok.mp h
    obtain ⟨v, hplain, h⟩ := except_bind_ok.mp h
    split at h
    · obtain ⟨version, -, h⟩ := except_bind_ok.mp h
      cases h
      exact keysDistinct_plain raw 0 (except_mapError_ok.mp hplain) []
    · cases h
  · cases h

/--
**The paths of a description**, each with what stands behind it.  In version 2 no path is a
reference; in the other versions the paths are not one reference as a whole, and an operation may
be a reference to one.
-/
structure PathsOf (d : Description) (items : Fields Value) : Prop where
  distinct : KeysDistinct (nodes (.mapping d.content))
  behind : List.Forall₂ (fun e i => e.1 = i.1 ∧ StandsBehind d.content e.2 i.2)
    (Fields.fieldsAt d.content "paths") items
  written : d.version = .swagger2 → ∀ e ∈ Fields.fieldsAt d.content "paths", refText? e.2 = none
  plain : d.version ≠ .swagger2 →
    Fields.textAt? (Fields.fieldsAt d.content "paths") refKey = none
  operations : d.version ≠ .swagger2 → ∀ i ∈ items, ∀ method ∈ methods,
    ∀ w ∈ Fields.get? i.2.asFields method, w.isMapping = true →
      ∃ t, StandsBehind d.content w t ∧ t.isMapping = true

/-- Nodes have operations for the methods that some paths have them for. -/
def HaveOperations (s : Scope) (paths : Fields Node) (items : Fields Value) : Prop :=
  List.Forall₂ (fun e i => e.1 = i.1 ∧ ∀ fields, s.fieldsOf (some e.2) = .ok fields →
    ∀ method ∈ methods, ∀ isMapping, s.isMapping (Fields.get? fields method) = .ok isMapping →
      isMapping = hasOperation i.2 method) paths items

/-- The paths of versions 3.0 and 3.1 have the operations of what stands behind them. -/
theorem PathsOf.haveOperations {d : Description} {items : Fields Value} (h : PathsOf d items)
    (hversion : d.version ≠ .swagger2) (b : Bounds) (models : Fields String) :
    HaveOperations (scopeOf (linkedFields (upgrade d)) b models)
      ((Fields.fieldsAt d.content "paths").map fun e => (e.1, pathNode d.version e)) items := by
  have hdistinct : ∀ e ∈ Fields.fieldsAt d.content "paths",
      KeysDistinct (nodesOf [.field e.1, .field "paths"] e.2) := fun e he =>
    keysDistinct_get? (keysDistinct_fieldsAt h.distinct "paths") (Fields.get?_of_mem
      (nodup_keys_of_keysDistinct (keysDistinct_fieldsAt h.distinct "paths")) he)
  have hpairs := (List.forall₂_and_left _ _).mpr ⟨hdistinct, h.behind⟩
  have hpairs := ((List.forall₂_and_left _ _).mpr ⟨h.operations hversion, hpairs.flip⟩).flip
  refine List.forall₂_map_left_iff.mpr (hpairs.imp ?_)
  rintro e i ⟨hreferences, hdistinct, hpath, hbehind⟩
  refine ⟨hpath, fun fields hfields => ?_⟩
  exact isMapping_of_standsBehind hversion h.distinct hbehind hreferences
    (sameOutline_linked downgradeSchema (kindIn_paths d.version e.1).2 hdistinct) hfields

/-- A path that is no reference stands behind itself. -/
theorem StandsBehind.eq_of_plain {content : Fields Value} {v target : Value}
    (h : StandsBehind content v target) (hplain : refText? v = none) : target = v := by
  cases h with
  | itself => rfl
  | reference text => rw [hplain] at text; cases text

/-- The paths of version 2 that are written out have their operations. -/
theorem PathsOf.haveOperations_swagger2 {content items : Fields Value}
    (h : PathsOf ⟨.swagger2, content⟩ items) (b : Bounds) (models : Fields String) :
    HaveOperations (scopeOf (linkedFields (upgrade ⟨.swagger2, content⟩)) b models)
      (Node.fields ⟨[.field "paths"], .mapping ((Swagger.paths content).map fun e =>
        (e.1, linkedAt e.1 e.2))⟩) (items.filter fun i => i.2.isMapping) := by
  obtain rfl : Fields.fieldsAt content "paths" = items := by
    rw [← List.forall₂_eq_eq_eq]
    refine ((List.forall₂_and_left _ _).mpr ⟨h.written rfl, h.behind⟩).imp ?_
    rintro e i ⟨hplain, hpath, hbehind⟩
    exact Prod.ext hpath (hbehind.eq_of_plain hplain).symm
  refine (forall₂_itemNodes content).imp ?_
  rintro e i ⟨item, rfl, hnode⟩
  exact ⟨rfl, fun fields hfields => isMapping_itemNode (hnode ▸ hfields)⟩

/-- Paths that are no mappings have no operations. -/
theorem endpointsOf_filter (items : Fields Value) :
    endpointsOf (items.filter fun i => i.2.isMapping) = endpointsOf items := by
  induction items with
  | nil => rfl
  | cons i items ih =>
      obtain ⟨path, v⟩ := i
      cases v with
      | mapping item =>
          rw [List.filter_cons_of_pos rfl, endpointsOf, List.flatMap_cons]
          exact congrArg _ ih
      | _ => exact ih

/--
**No operation is lost**: an interface has exactly the operations that the paths of the description
have, path by path, and for one path in the order of the methods.
-/
theorem endpoints_of_extract {d : Description} {items : Fields Value} {spec : ApiSpec}
    (h : PathsOf d items) (hspec : extract (upgrade d) = .ok spec) :
    spec.operations.map Scope.endpoint = endpointsOf items := by
  obtain ⟨s, parts, p, hprepare, -, hrun⟩ := extract_ok hspec
  obtain ⟨⟨b, models, -, rfl⟩, hdocument⟩ := prepare_ok hprepare
  obtain ⟨paths, hpaths, hoperations⟩ := Scope.interface_mayGive ⟨_, _, hrun⟩
  rw [hdocument] at hpaths
  by_cases hversion : d.version = .swagger2
  · obtain ⟨version, content⟩ := d
    obtain rfl : version = .swagger2 := hversion
    rw [fieldsOf_paths (nodup_keys_of_keysDistinct (keysDistinct_fieldsAt h.distinct "paths"))]
      at hpaths
    cases hpaths
    rw [Scope.operations_listed hoperations (h.haveOperations_swagger2 b models)]
    exact endpointsOf_filter items
  · rw [fieldsOf_paths_openapi hversion h.distinct (h.plain hversion)] at hpaths
    cases hpaths
    exact Scope.operations_listed hoperations (h.haveOperations hversion b models)

/-- A path that is written out. -/
def petsPath : Value :=
  .mapping [("post", .mapping []), ("get", .mapping []), ("summary", .string "Pets")]

/-- A path that is a reference to a reference to another path, and something that is no path. -/
def animalsContent : Fields Value :=
  [("openapi", .string "3.1.0"),
    ("info", .mapping [("title", .string "Pets"), ("version", .string "1")]),
    ("paths", .mapping [("/pets", petsPath),
      ("/animals", .mapping [("$ref", .string "#/x-paths/animals")]), ("x-note", .string "pets")]),
    ("x-paths", .mapping [("animals", .mapping [("$ref", .string "#/paths/~1pets")])])]

theorem endpoints_animalsContent :
    PathsOf ⟨.openapi31, animalsContent⟩
        [("/pets", petsPath), ("/animals", petsPath), ("x-note", .string "pets")]
      ∧ ∃ spec, extract (upgrade ⟨.openapi31, animalsContent⟩) = .ok spec
        ∧ spec.operations.map Scope.endpoint
          = [("/pets", "GET"), ("/pets", "POST"), ("/animals", "GET"), ("/animals", "POST")] := by
  have hpets : PointsAt animalsContent "#/paths/~1pets" petsPath :=
    ⟨"/paths/~1pets", "paths", "/pets", [], rfl, by decide, by decide +kernel, Or.inl rfl,
      ⟨by decide, (by decide : Kind.pathItem ∉ schemaKinds)⟩, rfl⟩
  have hanimals : PointsAt animalsContent "#/x-paths/animals"
      (.mapping [("$ref", .string "#/paths/~1pets")]) :=
    ⟨"/x-paths/animals", "x-paths", "animals", [], rfl, by decide, by decide +kernel,
      Or.inr (Or.inr (by decide)), ⟨by decide, (by decide : Kind.plain ∉ schemaKinds)⟩, rfl⟩
  have hpaths : PathsOf ⟨.openapi31, animalsContent⟩
      [("/pets", petsPath), ("/animals", petsPath), ("x-note", .string "pets")] := by
    refine ⟨by unfold KeysDistinct; decide +kernel, ?_, fun h => (nomatch h), fun _ => rfl, ?_⟩
    · exact .cons ⟨rfl, .itself rfl⟩ (.cons
        ⟨rfl, .reference rfl hanimals (.reference rfl hpets (.itself rfl))⟩
        (.cons ⟨rfl, .itself rfl⟩ .nil))
    · have hplain : ∀ i ∈ [("/pets", petsPath), ("/animals", petsPath), ("x-note", .string "pets")],
          ∀ method ∈ methods, ∀ w ∈ Fields.get? i.2.asFields method,
            refText? w = none ∧ w.isMapping = true := by decide +kernel
      intro _ i hi method hmethod w hw _
      obtain ⟨hw, hmapping⟩ := hplain i hi method hmethod w hw
      exact ⟨w, .itself hw, hmapping⟩
  obtain ⟨spec, hspec⟩ := except_exists_ok
    (x := extract (upgrade ⟨.openapi31, animalsContent⟩)) (by decide +kernel)
  exact ⟨hpaths, spec, hspec, (endpoints_of_extract hpaths hspec).trans (by decide +kernel)⟩

/-- A description of version 2 with a path that is a reference to another one. -/
def sharedPathContent : Fields Value :=
  [("swagger", .string "2.0"),
    ("info", .mapping [("title", .string "Pets"), ("version", .string "1")]),
    ("paths", .mapping [("/pets", petsPath),
      ("/animals", .mapping [("$ref", .string "#/paths/~1pets")])])]

/-- **Version 2 loses the operations of a path that is a reference.** -/
theorem lostEndpoints_sharedPathContent :
    ¬ ∀ (d : Description) (items : Fields Value) (spec : ApiSpec),
      KeysDistinct (nodes (.mapping d.content)) →
      List.Forall₂ (fun e i => e.1 = i.1 ∧ StandsBehind d.content e.2 i.2)
        (Fields.fieldsAt d.content "paths") items →
      extract (upgrade d) = .ok spec → spec.operations.map Scope.endpoint = endpointsOf items := by
  intro h
  have hpets : PointsAt sharedPathContent "#/paths/~1pets" petsPath :=
    ⟨"/paths/~1pets", "paths", "/pets", [], rfl, by decide, by decide +kernel, Or.inl rfl,
      ⟨by decide, (by decide : Kind.pathItem ∉ schemaKinds)⟩, rfl⟩
  obtain ⟨spec, hspec⟩ := except_exists_ok
    (x := extract (upgrade ⟨.swagger2, sharedPathContent⟩)) (by decide +kernel)
  have hall := h ⟨.swagger2, sharedPathContent⟩ [("/pets", petsPath), ("/animals", petsPath)] spec
    (by unfold KeysDistinct; decide +kernel)
    (.cons ⟨rfl, .itself rfl⟩ (.cons ⟨rfl, .reference rfl hpets (.itself rfl)⟩ .nil)) hspec
  have hfound : (extract (upgrade ⟨.swagger2, sharedPathContent⟩)).toOption.map
      (fun spec => spec.operations.map Scope.endpoint)
        = some [("/pets", "GET"), ("/pets", "POST")] := by decide +kernel
  rw [hspec, Except.toOption, Option.map_some, hall] at hfound
  exact absurd hfound (by decide +kernel)

end ApiClientGen.Extraction
