/-
Changing all schemas, kind by kind.

Going through the schemas of a description does at each place what the kind of the place asks
for: it goes on below the keys that lead to schemas, and changes the schemas when it is done with
what is inside of them.  So what stands under a key afterwards is what stood there before, changed
by its own kind.  The change that brings a schema of version 3.1 down leaves the other keys of a
schema alone.
-/
import ApiClientGen.Proofs.Canonical.Kinds
import ApiClientGen.Proofs.Canonical.NormalForm

namespace ApiClientGen.Canonical

open ApiClientGen.Document

/-- A value of a kind with all schemas in it changed. -/
def mapAt (change : Fields Value → Fields Value) : Kind → Value → Value
  | .schema => mapSchema change
  | .media => changed fun media => Fields.modify media "schema" (mapSchema change)
  | .parameter => mapParameter change
  | .response => mapResponse change
  | .requestBody => mapRequestBody change
  | .operation => mapOperation change
  | .pathItem => mapPathItem change
  | .components => mapComponents change
  | .document => changed (mapDocument change)
  | .table kind => eachValue (mapAt change kind)
  | .list kind => eachItem (mapAt change kind)
  | .plain | .changing => id

section

variable {change : Fields Value → Fields Value}

/-! ### Values without parts, and lists -/

theorem mapAt_scalar (kind : Kind) (s : Scalar) :
    mapAt change kind (.scalar s) = .scalar s := by
  cases kind <;> rfl

theorem mapAt_list (kind : Kind) (vs : List Value) :
    mapAt change kind (.list vs) = .list (vs.map (mapAt change kind.item)) := by
  cases kind with
  | list kind => rfl
  | _ => exact congrArg Value.list (List.map_id vs).symm

/-! ### Mappings -/

/-- Changes under some keys, one after the other, are one change of every entry. -/
theorem foldl_modify {parts : Fields Kind} (hnodup : (Fields.keys parts).Nodup)
    (f : Kind → Value → Value) (hplain : f .plain = id) (fields : Fields Value) :
    parts.foldl (fun acc p => Fields.modify acc p.1 (f p.2)) fields
      = fields.map fun e => (e.1, f ((Fields.get? parts e.1).getD .plain) e.2) := by
  induction parts generalizing fields with
  | nil => simp [Fields.get?, hplain]
  | cons p rest ih =>
      obtain ⟨key, kind⟩ := p
      obtain ⟨hnot, hrest⟩ := List.nodup_cons.mp hnodup
      rw [List.foldl_cons, ih hrest, Fields.modify, List.map_map]
      refine List.map_congr_left fun e _ => ?_
      by_cases he : e.1 = key
      · subst he
        simp [Fields.get?, Fields.get?_eq_none hnot, hplain]
      · simp [Fields.get?, he, Ne.symm he]

theorem mapAt_mapping {kind : Kind} (hkind : kind ≠ .schema) (fields : Fields Value) :
    mapAt change kind (.mapping fields)
      = .mapping (fields.map fun e => (e.1, mapAt change (kind.under e.1) e.2)) := by
  have hparts : ∀ kind : Kind, (Fields.keys kind.parts).Nodup := by
    intro kind
    cases kind with
    | table kind => exact List.nodup_nil
    | list kind => exact List.nodup_nil
    | _ => decide
  have hid : ∀ fields : Fields Value, fields = fields.map fun e => (e.1, e.2) :=
    fun fields => (List.map_id fields).symm
  have hmodify := fun kind : Kind => foldl_modify (hparts kind) (mapAt change) rfl fields
  cases kind with
  | schema => exact absurd rfl hkind
  | plain => exact congrArg Value.mapping (hid fields)
  | changing => exact congrArg Value.mapping (hid fields)
  | list kind => exact congrArg Value.mapping (hid fields)
  | table kind => rfl
  | media => exact congrArg Value.mapping (hmodify .media)
  | parameter => exact congrArg Value.mapping (hmodify .parameter)
  | response => exact congrArg Value.mapping (hmodify .response)
  | requestBody => exact congrArg Value.mapping (hmodify .requestBody)
  | operation => exact congrArg Value.mapping (hmodify .operation)
  | pathItem => exact congrArg Value.mapping (hmodify .pathItem)
  | components => exact congrArg Value.mapping (hmodify .components)
  | document =>
      refine congrArg Value.mapping ((hmodify .document).trans (List.map_congr_left fun e _ => ?_))
      by_cases he : e.1 = "x-webhooks"
      · rw [he]
        rfl
      · rw [Kind.under, if_neg he]

/-! ### Schemas -/

theorem mapProperties_eq_map (fields : Fields Value) :
    mapProperties change fields = fields.map fun e => (e.1, mapSchema change e.2) := by
  induction fields with
  | nil => rfl
  | cons e rest ih => rw [mapProperties, ih, List.map_cons]

theorem mapSchemas_eq_map (vs : List Value) : mapSchemas change vs = vs.map (mapSchema change) := by
  induction vs with
  | nil => rfl
  | cons v rest ih => rw [mapSchemas, ih, List.map_cons]

theorem mapInner_eq_map (fields : Fields Value) :
    mapInner change fields = fields.map fun e => (e.1, mapUnder change e.1 e.2) := by
  induction fields with
  | nil => rfl
  | cons e rest ih => rw [mapInner, ih, List.map_cons]

/-- Under a key of a schema, schemas are changed by the kind of what stands there. -/
theorem mapUnder_eq_mapAt {key : String} (hkey : key ∉ changingKeys) (v : Value) :
    mapUnder change key v = mapAt change (Kind.underSchema key) v := by
  by_cases hholding : key ∈ holdingKeys
  · simp only [holdingKeys, List.mem_cons, List.not_mem_nil, or_false] at hholding
    rcases hholding with rfl | rfl | rfl | rfl | rfl | rfl | rfl
    · cases v with
      | mapping fields => exact congrArg Value.mapping (mapProperties_eq_map fields)
      | _ => rfl
    · cases v <;> rfl
    · cases v <;> rfl
    · cases v <;> rfl
    · cases v with
      | list vs => exact congrArg Value.list (mapSchemas_eq_map vs)
      | _ => rfl
    · exact absurd (by decide) hkey
    · cases v with
      | list vs => exact congrArg Value.list (mapSchemas_eq_map vs)
      | _ => rfl
  · have hplain : Kind.underSchema key = .plain := by
      simp only [holdingKeys, List.mem_cons, List.not_mem_nil, or_false, not_or] at hholding
      simp [Kind.underSchema, hkey, hholding, propertiesKey, schemaKeys, schemaListKeys]
    rw [mapUnder_eq_self hholding, hplain]
    rfl

end

/-! ### Schemas of version 3.1 -/

section

variable {fields : Fields Value} {key : String}

/-- Bringing a schema down leaves alone what no step is about. -/
theorem get?_downgradeSchema (hconst : Fields.get? fields "const" = none)
    (hkey : key ∉ changingKeys) :
    Fields.get? (downgradeSchema fields) key = Fields.get? fields key := by
  simp only [changingKeys, List.mem_cons, List.not_mem_nil, or_false, not_or] at hkey
  have hsame : downgradeConst (downgradeType fields) = downgradeType fields := by
    have htype : Fields.get? (downgradeType fields) "const" = none := by
      rw [get?_downgradeType (by decide), hconst]
    rw [downgradeConst, htype]
  unfold downgradeSchema
  dsimp only
  rw [get?_downgradeBound (by simp [hkey]), get?_downgradeBound (by simp [hkey]),
    get?_downgradeExamples (by simp [hkey]), hsame, get?_downgradeType (by simp [hkey])]

theorem get?_nullable_downgradeSchema :
    Fields.get? (downgradeSchema fields) "nullable"
      = Fields.get? (downgradeType fields) "nullable" := by
  unfold downgradeSchema
  rw [get?_downgradeBound (by decide), get?_downgradeBound (by decide),
    get?_downgradeExamples (by decide), get?_downgradeConst (by decide)]

/-- What stands under a key of a schema whose schemas are all brought down. -/
theorem get?_downgraded (hconst : Fields.get? fields "const" = none) {kind : Kind}
    (hkey : Kind.schema.Has key kind) :
    Fields.get? (downgradeSchema (mapInner downgradeSchema fields)) key
      = (Fields.get? fields key).map (mapAt downgradeSchema kind) := by
  obtain ⟨rfl, hne⟩ := hkey
  have hchanging : key ∉ changingKeys := fun hmem => hne (if_pos hmem)
  rw [get?_downgradeSchema (by rw [get?_mapInner (by decide), hconst]) hchanging, mapInner_eq_map,
    Fields.get?_map (mapUnder downgradeSchema)]
  exact congrArg (fun f => (Fields.get? fields key).map f)
    (funext fun v => mapUnder_eq_mapAt hchanging v)

theorem keys_mapInner (change : Fields Value → Fields Value) (fields : Fields Value) :
    Fields.keys (mapInner change fields) = Fields.keys fields := by
  rw [mapInner_eq_map, Fields.keys_map (mapUnder change)]

/-! Each step writes and removes keys one by one, so that they stay distinct. -/

theorem nodup_keys_withTypes (types alternatives : List Value) (h : (Fields.keys fields).Nodup) :
    (Fields.keys (withTypes types alternatives fields)).Nodup := by
  have hnull : (Fields.keys (if (properTypes types).length < types.length then
      Fields.set fields "nullable" (.bool true) else fields)).Nodup := by
    split
    · exact Fields.nodup_keys_set h _ _
    · exact h
  unfold withTypes
  dsimp only
  split
  · exact Fields.nodup_keys_erase hnull _
  · exact Fields.nodup_keys_set hnull _ _
  · exact Fields.nodup_keys_set (Fields.nodup_keys_erase hnull _) _ _

theorem nodup_keys_downgradeType (h : (Fields.keys fields).Nodup) :
    (Fields.keys (downgradeType fields)).Nodup := by
  unfold downgradeType
  split
  · exact nodup_keys_withTypes _ _ h
  · split
    · exact Fields.nodup_keys_set (Fields.nodup_keys_erase h _) _ _
    · exact h
  · exact h

theorem nodup_keys_downgradeConst (h : (Fields.keys fields).Nodup) :
    (Fields.keys (downgradeConst fields)).Nodup := by
  unfold downgradeConst
  split
  · exact Fields.nodup_keys_set (Fields.nodup_keys_erase h _) _ _
  · exact h

theorem nodup_keys_downgradeExamples (h : (Fields.keys fields).Nodup) :
    (Fields.keys (downgradeExamples fields)).Nodup := by
  have herased : (Fields.keys (Fields.erase fields "examples")).Nodup :=
    Fields.nodup_keys_erase h _
  unfold downgradeExamples
  split
  · dsimp only
    split
    · split
      · exact herased
      · exact Fields.nodup_keys_set herased _ _
    · exact herased
  · exact h

theorem nodup_keys_downgradeBound (exclusive bound : String) (h : (Fields.keys fields).Nodup) :
    (Fields.keys (downgradeBound exclusive bound fields)).Nodup := by
  unfold downgradeBound
  split
  · split
    · exact Fields.nodup_keys_set (Fields.nodup_keys_set h _ _) _ _
    · exact h
  · exact h

/-- Bringing a schema down keeps its keys distinct. -/
theorem nodup_keys_downgradeSchema (h : (Fields.keys fields).Nodup) :
    (Fields.keys (downgradeSchema fields)).Nodup := by
  have hexamples : (Fields.keys (downgradeExamples (downgradeConst
      (downgradeType fields)))).Nodup :=
    nodup_keys_downgradeExamples (nodup_keys_downgradeConst (nodup_keys_downgradeType h))
  exact nodup_keys_downgradeBound _ _ (nodup_keys_downgradeBound _ _ hexamples)

/-! ### Types that are stated -/

/-- The name of the only type that is stated, and whether null is stated beside the types. -/
def statedType : Option Value → Option String × Bool
  | none => (none, false)
  | some (.list types) =>
    (if (properTypes types).length = 1 then (properTypes types).head?.bind Value.asText? else none,
      (properTypes types).length < types.length)
  | some type => (type.asText?, false)

theorem statedType_of_isList {type : Value} (h : type.isList = false) :
    statedType (some type) = (type.asText?, false) := by
  cases type with
  | list types => cases h
  | _ => rfl

/-- There are fewer proper types than types if null is among them. -/
theorem length_properTypes_lt {types : List Value} :
    (properTypes types).length < types.length ↔ nullType ∈ types := by
  rw [properTypes, List.length_filter_lt_length_iff_exists]
  simp

theorem get?_nullable_withTypes (types alternatives : List Value) (fields : Fields Value) :
    Fields.get? (withTypes types alternatives fields) "nullable"
      = if (properTypes types).length < types.length then some (.bool true)
        else Fields.get? fields "nullable" := by
  unfold withTypes
  dsimp only
  split <;> split <;> simp [Fields.get?_set, Fields.get?_erase]

theorem get?_type_withTypes (types alternatives : List Value) (fields : Fields Value) :
    Fields.get? (withTypes types alternatives fields) "type"
      = match properTypes types with
        | [type] => some type
        | _ => none := by
  unfold withTypes
  generalize properTypes types = proper
  match proper with
  | [] => simp [Fields.get?_erase]
  | [type] => simp [Fields.get?_set]
  | _ :: _ :: _ => simp [Fields.get?_set, Fields.get?_erase]

/-- Only types in a list are written in another way, if null is not the only type. -/
theorem downgradeType_cases (hnull : Fields.get? fields "type" ≠ some nullType) :
    (∃ types, Fields.get? fields "type" = some (.list types)
        ∧ downgradeType fields = withTypes types (typeSchemas types) fields)
      ∨ ((∀ type ∈ Fields.get? fields "type", type.isList = false)
        ∧ downgradeType fields = fields) := by
  unfold downgradeType
  split
  · rename_i types htypes
    exact Or.inl ⟨types, htypes, rfl⟩
  · rename_i type hnolist htype
    have hne : type ≠ nullType := fun heq => hnull (heq ▸ htype)
    refine Or.inr ⟨fun other hother => ?_, if_neg hne⟩
    obtain rfl : type = other := Option.some.inj (htype.symm.trans hother)
    cases type with
    | list types => exact absurd rfl (hnolist types)
    | _ => rfl
  · rename_i hnone
    exact Or.inr ⟨fun type htype => absurd (hnone.symm.trans htype) (Option.some_ne_none type).symm,
      rfl⟩

/-- Null among the types becomes a flag. -/
theorem get?_nullable_downgradeType (hnull : Fields.get? fields "type" ≠ some nullType) :
    Fields.get? (downgradeType fields) "nullable"
      = if nullType ∈ Fields.itemsAt fields "type" then some (.bool true)
        else Fields.get? fields "nullable" := by
  rcases downgradeType_cases hnull with ⟨types, htypes, hstep⟩ | ⟨hnolist, hstep⟩
  · rw [hstep, get?_nullable_withTypes, Fields.itemsAt_of_get? htypes]
    exact if_congr length_properTypes_lt rfl rfl
  · have hitems : Fields.itemsAt fields "type" = [] := by
      unfold Fields.itemsAt
      cases htype : Fields.get? fields "type" with
      | none => rfl
      | some type =>
          cases type with
          | list types => exact Bool.noConfusion (hnolist _ htype)
          | _ => rfl
    rw [hstep, hitems, if_neg List.not_mem_nil]

/-- What is left as the type is what was there, or the only proper one among the types. -/
theorem mem_type_downgradeType (hnull : Fields.get? fields "type" ≠ some nullType) {type : Value}
    (h : type ∈ Fields.get? (downgradeType fields) "type") :
    type ∈ Fields.get? fields "type" ∨ type ∈ Fields.itemsAt fields "type" := by
  rcases downgradeType_cases hnull with ⟨types, htypes, hstep⟩ | ⟨-, hstep⟩
  · rw [hstep, get?_type_withTypes] at h
    split at h
    · rename_i proper hproper
      obtain rfl := Option.some.inj h
      have hmem : proper ∈ properTypes types := by simp [hproper]
      exact Or.inr (Fields.itemsAt_of_get? htypes ▸ (List.mem_filter.mp hmem).1)
    · cases h
  · exact Or.inl (hstep ▸ h)

/-- **A schema that is brought down states the same type**, and says in one way that null is one. -/
theorem statedType_downgradeType (hflat : HasFlatTypes fields)
    (hnull : Fields.get? fields "type" ≠ some nullType) :
    (statedType (Fields.get? (downgradeType fields) "type")).1
        = (statedType (Fields.get? fields "type")).1
      ∧ (decide (Fields.get? (downgradeType fields) "nullable" = some (.bool true))
          || (statedType (Fields.get? (downgradeType fields) "type")).2)
        = (decide (Fields.get? fields "nullable" = some (.bool true))
          || (statedType (Fields.get? fields "type")).2) := by
  rcases downgradeType_cases hnull with ⟨types, htypes, hstep⟩ | ⟨-, hstep⟩
  · have hflatTypes : ∀ type ∈ properTypes types, type.isList = false := by
      intro type hmem
      exact hflat type (Fields.itemsAt_of_get? htypes ▸ (List.mem_filter.mp hmem).1)
    have hstated : statedType (Fields.get? (downgradeType fields) "type")
        = ((statedType (some (.list types))).1, false) := by
      rw [hstep, get?_type_withTypes, statedType]
      match hproper : properTypes types with
      | [] => rfl
      | [type] => exact statedType_of_isList (hflatTypes type (by simp [hproper]))
      | _ :: _ :: _ => rfl
    rw [hstated, htypes]
    refine ⟨rfl, ?_⟩
    rw [hstep, get?_nullable_withTypes, statedType]
    by_cases hlt : (properTypes types).length < types.length <;> simp [hlt]
  · rw [hstep]
    exact ⟨rfl, rfl⟩

end

/-! ### Canonical forms -/

section

variable {change : Fields Value → Fields Value}

/-- The fields of a value that is no schema are changed by their keys. -/
theorem asFields_mapAt {kind : Kind} (hkind : kind ≠ .schema) (v : Value) :
    (mapAt change kind v).asFields
      = v.asFields.map fun e => (e.1, mapAt change (kind.under e.1) e.2) := by
  cases v with
  | scalar s => rw [mapAt_scalar]; rfl
  | list vs => rw [mapAt_list]; rfl
  | mapping fields => rw [mapAt_mapping hkind]; rfl

theorem mapDocument_eq_map (content : Fields Value) :
    mapDocument change content
      = content.map fun e => (e.1, mapAt change (Kind.document.under e.1) e.2) := by
  have h : mapAt change .document (.mapping content) = _ := mapAt_mapping (by decide) content
  exact Value.mapping.inj h

/-- Nothing is changed in an extension. -/
theorem mapAt_under_of_isExtension {key : String} (hkey : isExtension key = true) (v : Value) :
    mapAt change (Kind.document.under key) v = v := by
  have hpaths : "paths" ≠ key :=
    fun heq => Bool.noConfusion (heq ▸ hkey : isExtension "paths" = true)
  have hcomponents : "components" ≠ key :=
    fun heq => Bool.noConfusion (heq ▸ hkey : isExtension "components" = true)
  have hunder : Kind.document.under key = .changing ∨ Kind.document.under key = .plain := by
    by_cases hhooks : key = "x-webhooks"
    · exact Or.inl (if_pos hhooks)
    · refine Or.inr ((if_neg hhooks).trans ?_)
      simp [Kind.parts, Fields.get?, hpaths, hcomponents]
  rcases hunder with hunder | hunder <;> rw [hunder] <;> rfl

namespace CanonicalDocument

/-- A canonical form with all schemas changed. -/
theorem ofFields_mapDocument (content : Fields Value) :
    ofFields (mapDocument change content)
      = { ofFields content with
          paths := (ofFields content).paths.map fun e => (e.1, mapAt change .pathItem e.2)
          components := (ofFields content).components.map fun e =>
            (e.1, mapAt change (Kind.components.under e.1) e.2) } := by
  have hget : ∀ key, Fields.get? (mapDocument change content) key
      = (Fields.get? content key).map (mapAt change (Kind.document.under key)) := by
    intro key
    rw [mapDocument_eq_map]
    exact Fields.get?_map (fun key => mapAt change (Kind.document.under key)) content key
  have hplain : ∀ key, Kind.document.under key = .plain →
      Fields.get? (mapDocument change content) key = Fields.get? content key := by
    intro key hkey
    rw [hget, hkey]
    exact Option.map_id'
  have hfields : ∀ key, Kind.document.under key ≠ .schema →
      Fields.fieldsAt (mapDocument change content) key = (Fields.fieldsAt content key).map
        fun e => (e.1, mapAt change ((Kind.document.under key).under e.1) e.2) := by
    intro key hkey
    rw [Fields.fieldsAt, hget, Fields.fieldsAt]
    cases Fields.get? content key with
    | none => rfl
    | some v => exact asFields_mapAt hkey v
  have hextensions : Canonical.extensions (mapDocument change content)
      = Canonical.extensions content := by
    unfold Canonical.extensions
    rw [mapDocument_eq_map, List.filter_map]
    refine congrArg Fields.ofEntries ((List.map_congr_left fun e he => ?_).trans (List.map_id _))
    rw [mapAt_under_of_isExtension (List.mem_filter.mp he).2]
    rfl
  unfold ofFields
  dsimp only
  rw [hextensions, Fields.fieldsAt_congr (hplain "info" (by decide)),
    Fields.itemsAt_congr (hplain "servers" (by decide)),
    Fields.itemsAt_congr (hplain "security" (by decide)),
    Fields.itemsAt_congr (hplain "tags" (by decide)), hplain "externalDocs" (by decide),
    hfields "paths" (by decide), hfields "components" (by decide)]
  rfl

/-- **Changing all schemas** is the same before and after a description comes into canonical form. -/
theorem fields_ofFields_mapDocument (content : Fields Value) :
    (ofFields (mapDocument change content)).fields
      = (ofFields content).fields.map
        fun e => (e.1, mapAt change (Kind.document.under e.1) e.2) := by
  have hitems : ∀ key items, Kind.document.under key = .plain →
      (itemsField key items).map (fun e => (e.1, mapAt change (Kind.document.under e.1) e.2))
        = itemsField key items := by
    intro key items hkey
    unfold itemsField
    split
    · rfl
    · rw [List.map_singleton, hkey]
      rfl
  have hextensions : (ofFields content).extensions.map
        (fun e => (e.1, mapAt change (Kind.document.under e.1) e.2))
      = (ofFields content).extensions := by
    refine (List.map_congr_left fun e he => ?_).trans (List.map_id _)
    rw [mapAt_under_of_isExtension
      ((isSorted_ofFields content).extension e.1 (Fields.mem_keys_of_mem he))]
    rfl
  have hdocs : ∀ docs : Option (Fields Value),
      ((docs.map fun docs => ("externalDocs", Value.mapping docs)).toList).map
          (fun e => (e.1, mapAt change (Kind.document.under e.1) e.2))
        = (docs.map fun docs => ("externalDocs", Value.mapping docs)).toList := by
    intro docs
    cases docs <;> rfl
  have hcomponents : ∀ components : Fields Value,
      (if components.isEmpty then [] else [("components", Value.mapping components)]).map
          (fun e => (e.1, mapAt change (Kind.document.under e.1) e.2))
        = if (components.map fun e => (e.1, mapAt change (Kind.components.under e.1) e.2)).isEmpty
          then [] else [("components", .mapping
            (components.map fun e => (e.1, mapAt change (Kind.components.under e.1) e.2)))] := by
    intro components
    cases components with
    | nil => rfl
    | cons e rest =>
        show [("components", mapAt change .components _)] = _
        rw [mapAt_mapping (by decide)]
        rfl
  rw [fields_eq_append (isSorted_ofFields _), fields_eq_append (isSorted_ofFields _),
    List.map_append, hextensions, ofFields_mapDocument]
  refine congrArg (· ++ _) ?_
  unfold fixedFields
  simp only [List.map_append, hitems _ _ (show Kind.document.under "servers" = .plain by decide),
    hitems _ _ (show Kind.document.under "security" = .plain by decide),
    hitems _ _ (show Kind.document.under "tags" = .plain by decide), hdocs, hcomponents]
  rfl

end CanonicalDocument

end

end ApiClientGen.Canonical
