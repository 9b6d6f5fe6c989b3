/-
Lists of types, read as they are or written in another way first.

A schema may list its types, null among them, as version 3.1 has it.  Taken as version 3.0, a
description with such schemas is read as it is; taken as version 3.1, its schemas are brought down
first.  Both say the same of their types, so the same interface is described, as long as no schema
that has a model of its own, and none that is another one under a new name, lists null among its
types: for these the list is not looked at, and null is lost in version 3.0.

Beside this, what is asked of a description is that it is well-formed.  A reference has to lead to
a thing of its own kind, and not into a part that is written in another way.  And what version 3.1
has more than version 3.0 must not get in the way: its webhooks become part of the document, and
a document with a misplaced reference cannot be linked.
-/
import ApiClientGen.Proofs.Canonical.VersionsAgree
import ApiClientGen.Proofs.Extraction.Lowered
import ApiClientGen.Proofs.Extraction.Sharing

namespace ApiClientGen.Extraction

open ApiClientGen.Canonical ApiClientGen.Document ApiClientGen.Reference
  ApiClientGen.Reference.Linked ApiClientGen.Source ApiClientGen.Spec ApiClientGen.Text

/-! ### What schemas say of their types -/

theorem asText?_bne_null (v : Value) : (v.asText? != some "null") = decide (v ≠ nullType) := by
  cases v with
  | scalar s =>
      cases s with
      | string text => by_cases htext : text = "null" <;> simp [Value.asText?, nullType, htext]
      | _ => rfl
  | _ => rfl

theorem map_value_items (place : Place) (vs : List Value) :
    (Node.items ⟨place, .list vs⟩).map Node.value = vs :=
  List.ext_getElem (by simp [Node.items, Value.asItems]) (by simp [Node.items, Value.asItems])

section

variable {s : Scope} (hself : ∀ n, n.ref? = none → s.follow n = .ok n)

include hself

theorem anyTextOf_atom (place : Place) {v : Value} (hv : isAtom v = true) :
    s.anyTextOf (some ⟨place, v⟩) = .ok v.asText? := by
  have hfollow : s.follow ⟨place, v⟩ = .ok ⟨place, v⟩ := by
    refine hself _ ?_
    cases v with
    | scalar v => rfl
    | _ => cases hv
  show (s.follow _ >>= _) >>= _ = _
  rw [hfollow]
  rfl

/-- The type that a list of names states. -/
theorem namedType_list {fields : Fields Node} {place : Place} {types : List Value}
    (hget : Fields.get? fields "type" = some ⟨place, .list types⟩)
    (hatoms : ∀ type ∈ types, isAtom type = true) :
    s.namedType fields = .ok (statedType (some (.list types))) := by
  have hvalues := map_value_items place types
  generalize hitems : Node.items ⟨place, .list types⟩ = items at hvalues
  have htext : ∀ n ∈ items, s.anyTextOf (some n) = .ok n.value.asText? := fun n hn =>
    anyTextOf_atom hself n.place (hatoms n.value (hvalues ▸ List.mem_map_of_mem hn))
  have hpicked : items.filterM (fun n => do return (← s.anyTextOf (some n)) != some "null")
      = .ok (items.filter fun n => n.value ≠ nullType) := by
    refine filterM_eq_filter fun n hn => ?_
    rw [htext n hn]
    exact congrArg Except.ok (asText?_bne_null n.value)
  have hsub : ∀ n ∈ items.filter (fun n => n.value ≠ nullType), n ∈ items :=
    fun n hn => (List.mem_filter.mp hn).1
  have hproper : (items.filter fun n => n.value ≠ nullType).map Node.value = properTypes types := by
    rw [properTypes, ← hvalues, List.filter_map]
    rfl
  generalize items.filter (fun n => n.value ≠ nullType) = proper at hpicked hsub hproper
  have hfollow : s.follow ⟨place, .list types⟩ = .ok ⟨place, .list types⟩ := hself _ rfl
  have hbehind : s.behind (some ⟨place, .list types⟩) = .ok (some ⟨place, .list types⟩) := by
    show s.follow _ >>= _ = _
    rw [hfollow]
    rfl
  have hlength : decide (proper.length < items.length)
      = decide ((properTypes types).length < types.length) := by
    rw [← hproper, ← hvalues, List.length_map, List.length_map]
  have hhead : s.anyTextOf proper.head? = .ok ((properTypes types).head?.bind Value.asText?) := by
    rw [← hproper, List.head?_map]
    cases hfirst : proper.head? with
    | none => rfl
    | some n => exact htext n (hsub n (List.mem_of_head? hfirst))
  unfold Scope.namedType
  rw [hget, hbehind]
  show ((Node.items ⟨place, .list types⟩).filterM _ : Except Failure (List Node)) >>= _ = _
  rw [hitems, hpicked, statedType, ← hlength, ← hproper, List.length_map, hproper]
  show (if proper.length = 1 then s.anyTextOf proper.head? >>= _ else _) = _
  split
  · rw [hhead]
    rfl
  · rfl

/-- **The type that a schema states** is the one that its names state. -/
theorem namedType_eq_statedType {fields : Fields Node} {place : Place} {type? : Option Value}
    (hget : Fields.get? fields "type" = type?.map fun v => ⟨place, withoutBytes v⟩)
    (hnames : ∀ v ∈ type?, namesTypes v = true) :
    s.namedType fields = .ok (statedType type?) := by
  cases type? with
  | none =>
      unfold Scope.namedType
      rw [hget]
      rfl
  | some v =>
      have hv := hnames v rfl
      cases v with
      | mapping fields => cases hv
      | list types =>
          have hatoms : ∀ type ∈ types, isAtom type = true := List.all_eq_true.mp hv
          rw [Option.map_some, withoutBytes_atoms hatoms] at hget
          exact namedType_list hself hget hatoms
      | scalar x =>
          have hfollow : s.follow ⟨place, .scalar x⟩ = .ok ⟨place, .scalar x⟩ := hself _ rfl
          have hbehind : s.behind (some ⟨place, .scalar x⟩) = .ok (some ⟨place, .scalar x⟩) := by
            show s.follow _ >>= _ = _
            rw [hfollow]
            rfl
          unfold Scope.namedType
          rw [hget, Option.map_some, withoutBytes_atom hv, hbehind]
          rfl

/-- Looking at the values of a list that has no parts in it. -/
theorem isTextEnumeration_of_listsOthers {fields : Fields Node} {place : Place} {v : Value}
    (hget : Fields.get? fields "enum" = some ⟨place, withoutBytes v⟩)
    (hothers : listsOthers v = true) : s.isTextEnumeration fields = .ok false := by
  cases v with
  | scalar x => cases hothers
  | mapping inner => cases hothers
  | list vs =>
      obtain ⟨hall, hsome⟩ := Bool.and_eq_true_iff.mp hothers
      have hatoms : ∀ v ∈ vs, isAtom v = true := List.all_eq_true.mp hall
      rw [withoutBytes_atoms hatoms] at hget
      have hvalues := map_value_items place vs
      have hitems : s.itemsOf (Fields.get? fields "enum") = .ok (Node.items ⟨place, .list vs⟩) := by
        rw [hget]
        exact itemsOf_of_follow (hself _ rfl)
      generalize Node.items ⟨place, .list vs⟩ = items at hvalues hitems
      have hproper : (items.filter fun n => !isNothing (some n)).map Node.value
          = vs.filter (· ≠ .null) := by
        rw [← hvalues, List.filter_map]
        refine congrArg (List.map Node.value) (List.filter_congr fun n _ => ?_)
        rw [isNothing_some]
        simp
      have hsub : ∀ n ∈ items.filter (fun n => !isNothing (some n)), n ∈ items :=
        fun n hn => (List.mem_filter.mp hn).1
      unfold Scope.isTextEnumeration
      rw [hitems]
      show (if (items.filter fun n => !isNothing (some n)).isEmpty then Except.ok false
        else (items.filter fun n => !isNothing (some n)).allM _) = _
      generalize items.filter (fun n => !isNothing (some n)) = proper at hproper hsub
      split
      · rfl
      · rename_i hempty
        have hother : vs.any (fun v => v ≠ .null && v.asText?.isNone) = true := by
          rw [← hproper, List.isEmpty_map] at hsome
          simpa [hempty] using hsome
        obtain ⟨v, hv, hother⟩ := List.any_eq_true.mp hother
        obtain ⟨hnull, hnone⟩ := Bool.and_eq_true_iff.mp hother
        have hmem : v ∈ proper.map Node.value := hproper ▸ List.mem_filter.mpr ⟨hv, hnull⟩
        obtain ⟨n, hn, rfl⟩ := List.mem_map.mp hmem
        rw [allM_eq_all (p := fun n => n.value.asText?.isSome) fun n hn => by
          rw [anyTextOf_atom hself n.place
            (hatoms n.value (hvalues ▸ List.mem_map_of_mem (hsub n hn)))]
          rfl]
        refine congrArg Except.ok (List.all_eq_false.mpr ⟨n, hn, ?_⟩)
        simpa using hnone

/-- A bare schema has the type that it names. -/
theorem namesType_of_isBare {fields : Fields Value} {place : Place}
    (hnodup : (Fields.keys fields).Nodup) (hbare : IsBare fields) :
    s.NamesType (Node.fields ⟨place, withoutBytes (.mapping fields)⟩) := by
  have hget := fun key => get?_fields_withoutBytes hnodup place key
  generalize Node.fields ⟨place, withoutBytes (.mapping fields)⟩ = nodes at hget
  have hparts : s.itemsOf (Fields.get? nodes "allOf") = .ok [] := by
    rw [hget]
    cases hv : Fields.get? fields "allOf" with
    | none => rfl
    | some v =>
        obtain rfl := hbare.allOf v hv
        exact itemsOf_of_follow (hself _ rfl)
  refine ⟨?_, hparts, ?_⟩
  · have henum := hget "enum"
    cases hv : Fields.get? fields "enum" with
    | none =>
        unfold Scope.isTextEnumeration
        rw [henum, hv]
        rfl
    | some v =>
        rw [hv] at henum
        exact isTextEnumeration_of_listsOthers hself henum (hbare.enum v hv)
  · obtain ⟨isMapping, hisMapping, hisSomething⟩ :
        ∃ b, s.isMapping (Fields.get? nodes "properties") = .ok b
          ∧ s.isSomething (Fields.get? nodes "properties") = .ok false := by
      rw [hget]
      cases hv : Fields.get? fields "properties" with
      | none => exact ⟨false, rfl, rfl⟩
      | some v =>
          obtain rfl := hbare.properties v hv
          refine ⟨true, isMapping_of_follow (hself _ rfl), ?_⟩
          show (s.follow _ >>= _) >>= _ = _
          rw [hself _ rfl]
          rfl
    unfold Scope.isRecord
    dsimp only
    rw [hisMapping, hisSomething, hparts]
    cases isMapping <;> rfl

end

/-- A flag says the same when it is written anew. -/
theorem isTrue_withoutBytes (place : Place) (v? : Option Value) :
    isTrue (v?.map fun v => ⟨place, withoutBytes v⟩) = decide (v? = some (.bool true)) := by
  cases v? with
  | none => rfl
  | some v =>
      rw [Option.map_some, isTrue_some]
      cases v with
      | scalar x => cases x <;> simp [withoutBytes]
      | list vs => simp [withoutBytes]
      | mapping fields => simp [withoutBytes]

section

variable {schema : Fields Value} (htypes : ∀ v ∈ Fields.get? schema "type", namesTypes v = true)

include htypes

/-- All types that are listed are names. -/
theorem isAtom_of_namesTypes {type : Value} (h : type ∈ Fields.itemsAt schema "type") :
    isAtom type = true := by
  obtain ⟨types, hget, hmem⟩ := Fields.get?_of_mem_itemsAt h
  exact List.all_eq_true.mp (htypes _ hget) type hmem

theorem hasFlatTypes_of_namesTypes : HasFlatTypes schema := by
  intro type htype
  have hatom := isAtom_of_namesTypes htypes htype
  cases type with
  | list types => cases hatom
  | _ => rfl

theorem namesTypes_downgradeType (hnull : Fields.get? schema "type" ≠ some nullType) :
    ∀ v ∈ Fields.get? (downgradeType schema) "type", namesTypes v = true := by
  intro v hv
  rcases mem_type_downgradeType hnull hv with hv | hv
  · exact htypes v hv
  · have hatom := isAtom_of_namesTypes htypes hv
    cases v with
    | list types => cases hatom
    | _ => exact hatom

end

section

variable {s t : Scope} (hs : ∀ n, n.ref? = none → s.follow n = .ok n)
  (ht : ∀ n, n.ref? = none → t.follow n = .ok n)

include hs ht

/-- Schemas that state the same type say the same, wherever null is said. -/
theorem sameType_of_statedType {fields fields' : Fields Value} (place : Place)
    (hnodup : (Fields.keys fields).Nodup) (hnodup' : (Fields.keys fields').Nodup)
    (hnames : ∀ v ∈ Fields.get? fields "type", namesTypes v = true)
    (hnames' : ∀ v ∈ Fields.get? fields' "type", namesTypes v = true)
    (htype : (statedType (Fields.get? fields' "type")).1
      = (statedType (Fields.get? fields "type")).1)
    (hnull : (decide (Fields.get? fields' "nullable" = some (.bool true))
        || (statedType (Fields.get? fields' "type")).2)
      = (decide (Fields.get? fields "nullable" = some (.bool true))
        || (statedType (Fields.get? fields "type")).2))
    (hnullable : Fields.get? fields' "nullable" = Fields.get? fields "nullable" ∨ IsBare fields) :
    s.SameType t (Node.fields ⟨place, withoutBytes (.mapping fields)⟩)
      (Node.fields ⟨place, withoutBytes (.mapping fields')⟩) := by
  have hget := get?_fields_withoutBytes hnodup place
  have hgetAfter := get?_fields_withoutBytes hnodup' place
  refine ⟨?_, hnullable.imp (fun heq => ?_) (namesType_of_isBare hs hnodup)⟩
  · rw [namedType_eq_statedType hs (hget "type") hnames,
      namedType_eq_statedType ht (hgetAfter "type") hnames', hget, hgetAfter, isTrue_withoutBytes,
      isTrue_withoutBytes]
    exact .ok ⟨htype.symm, hnull.symm⟩
  · rw [hget, hgetAfter, isTrue_withoutBytes, isTrue_withoutBytes, heq]

/-- **A schema says the same of its type** when it is brought down. -/
theorem Lowered.sameType {n m : Node} (h : Lowered .schema n m) :
    s.SameType t n.fields m.fields := by
  cases h with
  | @intro v place fits =>
      cases v with
      | scalar x =>
          rw [mapAt_scalar, Node.fields, asFields_scalar]
          exact ⟨.ok ⟨rfl, rfl⟩, Or.inl rfl⟩
      | list vs => exact ⟨.ok ⟨rfl, rfl⟩, Or.inl rfl⟩
      | mapping fields =>
          obtain ⟨-, hnodup, -, hschema⟩ := fits.fits
          obtain ⟨-, htypes, hnull, -⟩ := hschema rfl
          -- What is inside of the schema is not looked at for its type.
          have htype : Fields.get? (mapInner downgradeSchema fields) "type"
              = Fields.get? fields "type" := get?_mapInner (by decide) _ _
          have hnullable : Fields.get? (mapInner downgradeSchema fields) "nullable"
              = Fields.get? fields "nullable" := get?_mapInner (by decide) _ _
          have hitems := Fields.itemsAt_congr htype
          rw [← hnullable, ← hitems] at hnull
          rw [← htype] at htypes
          have hnames := fun v hv => (htypes v hv).2
          have hnonull : Fields.get? (mapInner downgradeSchema fields) "type" ≠ some nullType :=
            fun heq => (htypes _ heq).1 rfl
          have hnodup' := nodup_keys_downgradeSchema
            ((keys_mapInner downgradeSchema fields).symm ▸ hnodup)
          obtain ⟨hsame, hsameNull⟩ :=
            statedType_downgradeType (hasFlatTypes_of_namesTypes hnames) hnonull
          refine sameType_of_statedType hs ht place hnodup hnodup' (htype ▸ hnames) ?_ ?_ ?_ ?_
          · rw [get?_type_downgradeSchema]
            exact namesTypes_downgradeType hnames hnonull
          · rw [get?_type_downgradeSchema, hsame, htype]
          · rw [get?_type_downgradeSchema, get?_nullable_downgradeSchema, hsameNull, hnullable,
              htype]
          · rw [get?_nullable_downgradeSchema, get?_nullable_downgradeType hnonull, ← hnullable]
            split
            · rename_i hmem
              exact (hnull hmem).imp_left Eq.symm
            · exact Or.inl rfl

end

/-! ### The same interface -/

section

variable {t u : Fields Value} (h : SamePlaces t u) (b : Bounds) (models : Fields String)

include h

/-- **Documents that have the same places are seen alike.** -/
theorem SamePlaces.alike : (scopeOf t b models).Alike (scopeOf u b models) Lowered where
  models := rfl
  levels := rfl
  depth := rfl
  shape _ _ _ hnm := hnm.shape
  value _ _ hnm := hnm.value
  place _ _ _ _ _ _ hnm hnm' := by rw [hnm.place, hnm'.place]
  field _ _ _ _ _ hnm hkey := hnm.field hkey
  fields _ _ _ _ hnm hk := hnm.fields hk
  items _ _ _ hnm := hnm.items
  type _ _ hnm := hnm.sameType (fun _ => follow_scopeOf) (fun _ => follow_scopeOf)
  follow _ _ _ hnm := (h.followWithin b.chain hnm).mapError _

theorem SamePlaces.parts :
    Agree (SameInterface t u b) ((scopeOf t b models).parts (.mapping t))
      ((scopeOf u b models).parts (.mapping u)) := by
  have halike := h.alike b models
  have hinfo : Option.Rel (Lowered .plain) _ _ := h.field "info" .plain (by decide)
  have hcomponents : Option.Rel (Lowered .components) _ _ :=
    h.field "components" .components (by decide)
  have hpaths : Option.Rel (Lowered (.table .pathItem)) _ _ := h.field "paths" _ (by decide)
  unfold Scope.parts
  refine (halike.plainFieldsOf hinfo).bind fun info info' hinfo => ?_
  refine (halike.fieldsOf (halike.seen hcomponents)).bind
    fun components components' hcomponents => ?_
  have hschemas : Option.Rel (Lowered (.table .schema)) _ _ := hcomponents "schemas" (by decide)
  refine (halike.tableOf (fun _ => ⟨rfl, by decide⟩) (halike.seen hschemas)).bind
    fun schemas schemas' hschemas => .ok ⟨hschemas.keys, fun models => ?_⟩
  have halike := h.alike b models
  refine halike.interface ⟨hschemas, hinfo, h.field "servers" .plain (by decide),
    hcomponents "securitySchemes" (by decide), ?_⟩
  refine (halike.tableOf (fun _ => ⟨rfl, by decide⟩) (halike.seen hpaths)).mono
    fun _ _ hpaths => hpaths.mono fun _ _ _ hitem => ?_
  exact (halike.fieldsOf (halike.seen (.some hitem))).mono fun _ _ => halike.samePath

end

/-- **A description that says the same in both versions.** -/
structure ReadAlike (content : Fields Value) : Prop where
  keys : (Fields.keys content).Nodup
  fits : AllFit .document (.mapping (upgrade ⟨.openapi30, content⟩).fields)
  /-- Whatever stands where the text of a reference is expected is no reference itself. -/
  linked30 : misplaced? (.mapping (linkedFields (upgrade ⟨.openapi30, content⟩))) = none
  linked31 : misplaced? (.mapping (linkedFields (upgrade ⟨.openapi31, content⟩))) = none

instance (content : Fields Value) : Decidable (ReadAlike content) :=
  decidable_of_iff
    ((Fields.keys content).Nodup
      ∧ AllFit .document (.mapping (upgrade ⟨.openapi30, content⟩).fields)
      ∧ misplaced? (.mapping (linkedFields (upgrade ⟨.openapi30, content⟩))) = none
      ∧ misplaced? (.mapping (linkedFields (upgrade ⟨.openapi31, content⟩))) = none)
    ⟨fun ⟨hkeys, hfits, h30, h31⟩ => ⟨hkeys, hfits, h30, h31⟩,
      fun h => ⟨h.keys, h.fits, h.linked30, h.linked31⟩⟩

section

variable {content : Fields Value} (h : ReadAlike content)

include h

theorem ReadAlike.samePlaces :
    SamePlaces (linkedFields (upgrade ⟨.openapi30, content⟩))
      (linkedFields (upgrade ⟨.openapi31, content⟩)) where
  field key kind hkey := by
    have hhooks : key ≠ "x-webhooks" := by
      rintro rfl
      exact hkey.2 hkey.1.symm
    have hget := get?_fields_upgrade_openapi31 h.keys hhooks
    rw [hkey.1] at hget
    have hnode : ∀ d, Fields.get? (Node.root (.mapping (linkedFields d))).fields key
        = (Fields.get? d.fields key).map fun v => ⟨[.field key], withoutBytes v⟩ := by
      intro d
      rw [get?_fields_node, linkedFields_eq_map]
      show ((Fields.get? (d.fields.map fun e => (e.1, withoutBytes e.2)) key).map _) = _
      rw [Fields.get?_map fun _ => withoutBytes, Option.map_map]
      rfl
    rw [hnode, hnode, hget, Option.map_map]
    cases hv : Fields.get? (upgrade ⟨.openapi30, content⟩).fields key with
    | none => exact .none
    | some v => exact .some (.intro _ (h.fits.field (Fields.mem_of_get? hv) hkey))
  left := textAt?_ofEntries_fields (CanonicalDocument.isSorted_ofFields _)
  right := textAt?_ofEntries_fields (CanonicalDocument.isSorted_ofFields _)

/--
**Lists of types describe the same interface in both versions**, read as they are or written in
another way first.
-/
theorem extract_upgrade_openapi31 :
    extract (upgrade ⟨.openapi31, content⟩) = extract (upgrade ⟨.openapi30, content⟩) :=
  (extract_eq_of_parts (ofFields_linkedFields h.linked30) (ofFields_linkedFields h.linked31)
    fun b _ => h.samePlaces.parts b []).symm

end

/-- A description of one operation, which gives a pet. -/
def petWith (properties : Fields Value) : Fields Value :=
  [("openapi", .string "3.1.0"),
    ("info", .mapping [("title", .string "Pets"), ("version", .string "1")]),
    ("paths", .mapping
      [("/pet", .mapping
        [("get", .mapping
          [("responses", .mapping
            [("200", .mapping
              [("content", .mapping
                [("application/json", .mapping
                  [("schema", .mapping [("$ref", .string "#/components/schemas/Pet")])])])])])])])]),
    ("components", .mapping
      [("schemas", .mapping [("Pet", .mapping [("properties", .mapping properties)])])])]

/-- Types in lists: with a proper type, for the items of a list, and beside a flag. -/
def listedTypes : Fields Value :=
  [("name", .mapping [("type", .list [.string "string", .string "null"])]),
    ("ages", .mapping
      [("type", .string "array"),
        ("items", .mapping [("type", .list [.string "null", .string "integer"])])]),
    ("kind", .mapping
      [("type", .list [.string "string", .string "null"]), ("nullable", .bool true),
        ("enum", .list [.string "cat", .string "dog"])])]

theorem extract_petWith_listedTypes :
    ReadAlike (petWith listedTypes)
      ∧ extract (upgrade ⟨.openapi31, petWith listedTypes⟩)
        = extract (upgrade ⟨.openapi30, petWith listedTypes⟩) := by
  have h : ReadAlike (petWith listedTypes) := by decide +kernel
  exact ⟨h, extract_upgrade_openapi31 h⟩

/-- An enumeration that lists null among its types. -/
def listedKind : Fields Value :=
  [("kind", .mapping
    [("type", .list [.string "string", .string "null"]),
      ("enum", .list [.string "cat", .string "dog"])])]

/-- The types in the models of the interface that a description describes. -/
def modelTypes (d : CanonicalDocument) : Option (Fields (List TypeRef)) :=
  (extract d).toOption.map fun spec => Fields.mapValues Schema.types spec.schemas

/-- **Null among the types of an enumeration is lost** if the list is read as it is. -/
theorem extract_petWith_listedKind :
    (∀ s ∈ documentSchemas (petWith listedKind),
        Fields.get? s "const" = none ∧ Fields.get? s "type" ≠ some nullType)
      ∧ extract (upgrade ⟨.openapi31, petWith listedKind⟩)
        ≠ extract (upgrade ⟨.openapi30, petWith listedKind⟩) := by
  have hlisted : modelTypes (upgrade ⟨.openapi30, petWith listedKind⟩)
      = some [("PetKind", []), ("Pet", [.reference "PetKind"])] := by decide +kernel
  have hflagged : modelTypes (upgrade ⟨.openapi31, petWith listedKind⟩)
      = some [("PetKind", []), ("Pet", [(TypeRef.reference "PetKind").orNull true])] := by
    decide +kernel
  refine ⟨by decide +kernel, fun heq => ?_⟩
  have htypes : modelTypes (upgrade ⟨.openapi31, petWith listedKind⟩)
      = modelTypes (upgrade ⟨.openapi30, petWith listedKind⟩) := by rw [modelTypes, heq, modelTypes]
  rw [hflagged, hlisted] at htypes
  exact absurd htypes (by decide)

end ApiClientGen.Extraction
