/-
The keywords that schemas keep.

Bringing a schema of version 3.1 down rewords what stands under a few of its keys.  Under every
other key it keeps what the author wrote, but for the schemas there, which are brought down in
their turn; so the same holds on every level.  One key is not safe: the alternatives that stand
for several types are written over alternatives that are there already, and with those goes
everything that was inside of them.
-/
import ApiClientGen.Proofs.Canonical.ByKind

namespace ApiClientGen.Canonical

open ApiClientGen.Document

variable {fields : Fields Value} {key : String}

/-- The keys whose values are reworded, and those that the new wording takes. -/
def rewordedKeys : List String :=
  ["type", "nullable", "const", "enum", "examples", "example", "minimum", "maximum",
    "exclusiveMinimum", "exclusiveMaximum"]

/-! ### What stands under a key, with its schemas exchanged -/

/-- What stands under a key of a schema, with the schemas in it exchanged. -/
def withInner (f : Value → Value) (key : String) : Value → Value
  | .mapping fields =>
    if key = propertiesKey then .mapping (Fields.mapValues f fields)
    else if schemaKeys.contains key then f (.mapping fields)
    else .mapping fields
  | .list vs => if schemaListKeys.contains key then .list (vs.map f) else .list vs
  | .scalar v => .scalar v

theorem asFields_withInner (f : Value → Value) (v : Value) :
    (withInner f propertiesKey v).asFields = Fields.mapValues f v.asFields := by
  cases v with
  | scalar v => rfl
  | list vs => rfl
  | mapping fields => rw [withInner, if_pos rfl]; rfl

theorem asItems_withInner (f : Value → Value) (hkey : key ∈ schemaListKeys) (v : Value) :
    (withInner f key v).asItems = v.asItems.map f := by
  have hother : ∀ k ∈ schemaListKeys, k ≠ propertiesKey ∧ k ∉ schemaKeys := by decide
  obtain ⟨hproperties, hsingle⟩ := hother key hkey
  cases v with
  | scalar v => rfl
  | list vs => rw [withInner, if_pos (List.contains_iff_mem.mpr hkey)]; rfl
  | mapping fields =>
      rw [withInner, if_neg hproperties, if_neg (mt List.contains_iff_mem.mp hsingle)]
      rfl

section

variable (change : Fields Value → Fields Value)

theorem withInner_of_mem_schemaKeys (hkey : key ∈ schemaKeys) (v : Value) :
    withInner (mapSchema change) key v = mapSchema change v := by
  have hother : ∀ k ∈ schemaKeys, k ≠ propertiesKey ∧ k ∉ schemaListKeys := by decide
  obtain ⟨hproperties, hlist⟩ := hother key hkey
  cases v with
  | scalar v => simp [withInner, mapSchema]
  | list vs => simp [withInner, mapSchema, hlist]
  | mapping fields =>
      rw [withInner, if_neg hproperties, if_pos (List.contains_iff_mem.mpr hkey)]

theorem mapUnder_eq_withInner (key : String) (v : Value) :
    mapUnder change key v = withInner (mapSchema change) key v := by
  cases v with
  | scalar v => rw [mapUnder, withInner] <;> simp
  | list vs => rw [mapUnder, withInner, mapSchemas_eq_map]
  | mapping fields => rw [mapUnder, withInner, mapProperties_eq_map, mapSchema, Fields.mapValues]

/-- Under each key stands what was there, with its schemas changed. -/
theorem get?_mapInner_eq_map (fields : Fields Value) (key : String) :
    Fields.get? (mapInner change fields) key
      = (Fields.get? fields key).map (withInner (mapSchema change) key) := by
  rw [mapInner_eq_map, Fields.get?_map (mapUnder change), funext (mapUnder_eq_withInner change key)]

end

/-! ### One schema -/

/-- Schemas with more than one type, null apart. -/
def ListsSeveral (schema : Fields Value) : Prop :=
  1 < (properTypes (Fields.itemsAt schema "type")).length

instance (schema : Fields Value) : Decidable (ListsSeveral schema) :=
  inferInstanceAs (Decidable (1 < _))

theorem listsSeveral_congr {schema other : Fields Value}
    (h : Fields.get? schema "type" = Fields.get? other "type") :
    ListsSeveral schema ↔ ListsSeveral other := by
  rw [ListsSeveral, ListsSeveral, Fields.itemsAt_congr h]

/-- Apart from the types nothing that is brought down touches a key that is not reworded. -/
theorem get?_downgradeSchema_eq_downgradeType (hkey : key ∉ rewordedKeys) :
    Fields.get? (downgradeSchema fields) key = Fields.get? (downgradeType fields) key := by
  simp only [rewordedKeys, List.mem_cons, List.not_mem_nil, or_false, not_or] at hkey
  unfold downgradeSchema
  rw [get?_downgradeBound (by simp [hkey]), get?_downgradeBound (by simp [hkey]),
    get?_downgradeExamples (by simp [hkey]), get?_downgradeConst (by simp [hkey])]

/-- The types are brought down without alternatives unless there are several. -/
theorem get?_anyOf_downgradeType (hfew : ¬ ListsSeveral fields) :
    Fields.get? (downgradeType fields) "anyOf" = Fields.get? fields "anyOf" := by
  unfold downgradeType
  split
  · rename_i types htypes
    have hitems : Fields.itemsAt fields "type" = types := Fields.itemsAt_of_get? htypes
    rw [ListsSeveral, hitems] at hfew
    rw [withTypes]
    rcases hproper : properTypes types with _ | ⟨type, _ | ⟨other, rest⟩⟩
    · dsimp only
      split <;> simp [Fields.get?_set, Fields.get?_erase]
    · dsimp only
      split <;> simp [Fields.get?_set]
    · rw [hproper] at hfew
      exact absurd (by simp) hfew
  · split
    · simp [withNull, Fields.get?_set, Fields.get?_erase]
    · rfl
  · rfl

/-- **A keyword that is not reworded stays**, unless alternatives for several types take its place. -/
theorem get?_downgradeSchema_of_kept (hkey : key ∉ rewordedKeys)
    (hsafe : key = "anyOf" → ¬ ListsSeveral fields) :
    Fields.get? (downgradeSchema fields) key = Fields.get? fields key := by
  rw [get?_downgradeSchema_eq_downgradeType hkey]
  by_cases hany : key = "anyOf"
  · rw [hany, get?_anyOf_downgradeType (hsafe hany)]
  · refine get?_downgradeType ?_
    simp only [rewordedKeys, List.mem_cons, not_or] at hkey
    simp [hkey, hany]

/-! ### The alternatives for several types -/

/-- A schema in which only the type could be reworded is one with its types brought down. -/
theorem downgradeSchema_eq_downgradeType
    (hnone : ∀ k ∈ ["const", "examples", "exclusiveMinimum", "exclusiveMaximum"],
      Fields.get? (downgradeType fields) k = none) :
    downgradeSchema fields = downgradeType fields := by
  have hconst : downgradeConst (downgradeType fields) = downgradeType fields := by
    rw [downgradeConst, hnone _ (by simp)]
  have hexamples : downgradeExamples (downgradeType fields) = downgradeType fields := by
    rw [downgradeExamples, hnone _ (by simp)]
  have hminimum : downgradeBound "exclusiveMinimum" "minimum" (downgradeType fields)
      = downgradeType fields := by
    rw [downgradeBound, hnone _ (by simp)]
  have hmaximum : downgradeBound "exclusiveMaximum" "maximum" (downgradeType fields)
      = downgradeType fields := by
    rw [downgradeBound, hnone _ (by simp)]
  rw [downgradeSchema, hconst, hexamples, hminimum, hmaximum]

/-- A schema that says no more than a type is brought down as any other. -/
theorem typeSchema_eq_mapSchema {type : Value} :
    typeSchema type = mapSchema downgradeSchema (.mapping [("type", type)]) := by
  have hinner : mapInner downgradeSchema [("type", type)] = [("type", type)] := by
    rw [mapInner, mapInner, mapUnder_eq_self (by decide)]
  have hnone : ∀ k ∈ ["const", "examples", "exclusiveMinimum", "exclusiveMaximum"],
      Fields.get? (downgradeType [("type", type)]) k = none := by
    intro k hk
    have hother : k ∉ ["type", "nullable", "anyOf"] ∧ "type" ≠ k := by
      revert k
      decide
    rw [get?_downgradeType hother.1, Fields.get?, if_neg hother.2, Fields.get?]
  have hget : Fields.get? [("type", type)] "type" = some type := if_pos rfl
  rw [mapSchema, hinner, downgradeSchema_eq_downgradeType hnone, downgradeType, hget]
  cases type with
  | list types => rw [typeSchema]
  | scalar v => simp [typeSchema]
  | mapping fields => simp [typeSchema, nullType]

theorem typeSchemas_eq_map (types : List Value) :
    typeSchemas types = (properTypes types).map fun type =>
      mapSchema downgradeSchema (.mapping [("type", type)]) := by
  induction types with
  | nil => rfl
  | cons type rest ih =>
      rw [typeSchemas, properTypes, List.filter_cons]
      by_cases hnull : type = nullType
      · simp [hnull, ih, properTypes]
      · simp [hnull, ih, properTypes, typeSchema_eq_mapSchema]

/-- **Several types leave no other alternatives** than those that stand for them. -/
theorem get?_anyOf_downgradeSchema (hseveral : ListsSeveral fields) :
    Fields.get? (downgradeSchema fields) "anyOf"
      = some (.list ((properTypes (Fields.itemsAt fields "type")).map fun type =>
          mapSchema downgradeSchema (.mapping [("type", type)]))) := by
  rw [get?_downgradeSchema_eq_downgradeType (by decide)]
  unfold ListsSeveral at hseveral
  unfold downgradeType
  split
  · rename_i types htypes
    rw [Fields.itemsAt_of_get? htypes] at hseveral ⊢
    unfold withTypes
    dsimp only
    split
    · rename_i hnil
      simp [hnil] at hseveral
    · rename_i type hone
      simp [hone] at hseveral
    · rw [Fields.get?_set_self, typeSchemas_eq_map]
  · rename_i type hnolist htype
    cases type with
    | list types => exact absurd rfl (hnolist types)
    | scalar v => simp [Fields.itemsAt, htype, Value.asItems, properTypes] at hseveral
    | mapping fields => simp [Fields.itemsAt, htype, Value.asItems, properTypes] at hseveral
  · rename_i hnone
    simp [Fields.itemsAt, hnone, properTypes] at hseveral

/-! ### Schemas at any depth -/

/-- One step from a schema to one inside of it. -/
inductive SchemaStep
  | property (name : String)
  /-- To the only schema under a key. -/
  | inner (key : String)
  /-- To one of the schemas listed under a key. -/
  | listed (key : String) (index : Nat)

namespace SchemaStep

/-- The key of the schema that the step goes through. -/
def keyword : SchemaStep → String
  | property _ => propertiesKey
  | inner key => key
  | listed key _ => key

/-- Where the step leads to from a schema. -/
def from? (schema : Fields Value) : SchemaStep → Option Value
  | property name => Fields.get? (Fields.fieldsAt schema propertiesKey) name
  | inner key => if key ∈ schemaKeys then Fields.get? schema key else none
  | listed key index => if key ∈ schemaListKeys then (Fields.itemsAt schema key)[index]? else none

@[simp] theorem from?_nil (step : SchemaStep) : step.from? [] = none := by
  cases step <;> simp [from?, Fields.fieldsAt, Fields.itemsAt, Fields.get?]

theorem from?_eq_none {step : SchemaStep} (hkey : step.keyword ∉ holdingKeys)
    (schema : Fields Value) : step.from? schema = none := by
  cases step with
  | property name =>
      have hholds : propertiesKey ∈ holdingKeys := by decide
      exact absurd hholds hkey
  | inner key =>
      refine if_neg fun hsingle => hkey ?_
      have hholds : ∀ k ∈ schemaKeys, k ∈ holdingKeys := by decide
      exact hholds key hsingle
  | listed key index =>
      refine if_neg fun hlist => hkey ?_
      have hholds : ∀ k ∈ schemaListKeys, k ∈ holdingKeys := by decide
      exact hholds key hlist

/-- A step leads into a changed schema where the same step leads in the schema before. -/
theorem from?_eq_map {change : Fields Value → Fields Value} {schema result : Fields Value}
    {step : SchemaStep}
    (h : Fields.get? result step.keyword
      = (Fields.get? schema step.keyword).map (withInner (mapSchema change) step.keyword)) :
    step.from? result = (step.from? schema).map (mapSchema change) := by
  cases step with
  | property name =>
      have hfields : Fields.fieldsAt result propertiesKey
          = Fields.mapValues (mapSchema change) (Fields.fieldsAt schema propertiesKey) := by
        rw [keyword] at h
        rw [Fields.fieldsAt, Fields.fieldsAt, h]
        cases Fields.get? schema propertiesKey with
        | none => rfl
        | some v => exact asFields_withInner _ v
      rw [from?, from?, hfields, Fields.get?_mapValues]
  | inner key =>
      rw [keyword] at h
      rw [from?, from?, h]
      split
      · rename_i hkey
        congr 1
        exact funext (withInner_of_mem_schemaKeys change hkey)
      · rfl
  | listed key index =>
      rw [keyword] at h
      rw [from?, from?]
      split
      · rename_i hkey
        have hitems : Fields.itemsAt result key
            = (Fields.itemsAt schema key).map (mapSchema change) := by
          rw [Fields.itemsAt, Fields.itemsAt, h]
          cases Fields.get? schema key with
          | none => rfl
          | some v => exact asItems_withInner _ hkey v
        rw [hitems, List.getElem?_map]
      · rfl

end SchemaStep

/-- The value that some steps lead to. -/
def schemaAt : List SchemaStep → Value → Option Value
  | [], v => some v
  | step :: path, v => (step.from? v.asFields).bind (schemaAt path)

/-- Steps that do not lead into the alternatives of a schema with several types. -/
def Survives : List SchemaStep → Value → Prop
  | [], _ => True
  | step :: path, v => (step.keyword = "anyOf" → ¬ ListsSeveral v.asFields)
    ∧ ∀ w ∈ step.from? v.asFields, Survives path w

instance decidableSurvives : (path : List SchemaStep) → (v : Value) → Decidable (Survives path v)
  | [], _ => inferInstanceAs (Decidable True)
  | step :: path, v =>
    have : DecidablePred (Survives path) := decidableSurvives path
    inferInstanceAs (Decidable ((step.keyword = "anyOf" → ¬ ListsSeveral v.asFields)
      ∧ ∀ w ∈ step.from? v.asFields, Survives path w))

/--
What a schema keeps when it is brought down: what is under every key that is not reworded, with
the schemas there brought down, unless alternatives for several types take its place.
-/
def KeepsKeywords (schema result : Fields Value) : Prop :=
  ∀ key, key ∉ rewordedKeys → (key = "anyOf" → ¬ ListsSeveral schema) →
    Fields.get? result key
      = (Fields.get? schema key).map (withInner (mapSchema downgradeSchema) key)

theorem keepsKeywords_downgradeSchema (schema : Fields Value) :
    KeepsKeywords schema (downgradeSchema (mapInner downgradeSchema schema)) := by
  intro key hkey hsafe
  have htype : Fields.get? (mapInner downgradeSchema schema) "type" = Fields.get? schema "type" :=
    get?_mapInner (by decide) downgradeSchema schema
  rw [get?_downgradeSchema_of_kept hkey fun hany => mt (listsSeveral_congr htype).mp (hsafe hany),
    get?_mapInner_eq_map]

/-- A step that is safe leads to the changed schema of where it led before. -/
theorem SchemaStep.from?_downgradeSchema {step : SchemaStep} {schema : Fields Value}
    (hsafe : step.keyword = "anyOf" → ¬ ListsSeveral schema) :
    step.from? (downgradeSchema (mapInner downgradeSchema schema))
      = (step.from? schema).map (mapSchema downgradeSchema) := by
  by_cases hkey : step.keyword ∈ rewordedKeys
  · have hholds : ∀ k ∈ rewordedKeys, k ∉ holdingKeys := by decide
    rw [from?_eq_none (hholds _ hkey), from?_eq_none (hholds _ hkey), Option.map_none]
  · exact from?_eq_map (keepsKeywords_downgradeSchema schema _ hkey hsafe)

theorem schemaAt_mapSchema {path : List SchemaStep} {v : Value} (h : Survives path v) :
    schemaAt path (mapSchema downgradeSchema v)
      = (schemaAt path v).map (mapSchema downgradeSchema) := by
  induction path generalizing v with
  | nil => rfl
  | cons step path ih =>
      obtain ⟨hsafe, hpath⟩ := h
      have hfrom : step.from? (mapSchema downgradeSchema v).asFields
          = (step.from? v.asFields).map (mapSchema downgradeSchema) := by
        cases v with
        | mapping schema => exact SchemaStep.from?_downgradeSchema hsafe
        | scalar v => simp [mapSchema, Value.asFields]
        | list vs => simp [mapSchema, Value.asFields]
      rw [schemaAt, schemaAt, hfrom]
      cases hw : step.from? v.asFields with
      | none => rfl
      | some w => exact ih (hpath w hw)

/--
**Schemas keep their keywords when they are brought down, on every level.**  Wherever some steps
lead in a schema, they lead to the same place of the schema brought down, unless they go into the
alternatives of a schema with several types.  A schema there keeps what is under each key that is
not reworded, with the schemas there brought down; and one with several types has alternatives
for these, and no others.
-/
theorem keepsKeywords_mapSchema {path : List SchemaStep} {v : Value} (h : Survives path v) :
    schemaAt path (mapSchema downgradeSchema v)
        = (schemaAt path v).map (mapSchema downgradeSchema)
      ∧ ∀ schema, schemaAt path v = some (.mapping schema) →
        ∃ result, schemaAt path (mapSchema downgradeSchema v) = some (.mapping result)
          ∧ KeepsKeywords schema result
          ∧ (ListsSeveral schema → Fields.get? result "anyOf"
            = some (.list ((properTypes (Fields.itemsAt schema "type")).map fun type =>
                mapSchema downgradeSchema (.mapping [("type", type)])))) := by
  have hat := schemaAt_mapSchema h
  refine ⟨hat, fun schema hschema => ?_⟩
  have htype : Fields.get? (mapInner downgradeSchema schema) "type" = Fields.get? schema "type" :=
    get?_mapInner (by decide) downgradeSchema schema
  refine ⟨downgradeSchema (mapInner downgradeSchema schema), ?_,
    keepsKeywords_downgradeSchema schema, fun hseveral => ?_⟩
  · rw [hat, hschema, Option.map_some, mapSchema]
  · rw [get?_anyOf_downgradeSchema ((listsSeveral_congr htype).mpr hseveral),
      Fields.itemsAt_congr htype]

/-- A list of labels, each of them a code or a text, or nothing. -/
def labelsSchema : Value :=
  .mapping
    [("type", .list [.string "array", .string "null"]),
      ("x-order", .int 1),
      ("items", .mapping
        [("anyOf", .list
          [.mapping
              [("type", .list [.string "integer", .string "string"]), ("format", .string "code")],
            .mapping [("const", .string "none"), ("maxLength", .int 4)]])])]

theorem keepsKeywords_labelsSchema :
    Survives [.inner "items", .listed "anyOf" 0] labelsSchema
      ∧ schemaAt [.inner "items", .listed "anyOf" 0] (mapSchema downgradeSchema labelsSchema)
        = some (.mapping
          [("format", .string "code"),
            ("anyOf", .list
              [.mapping [("type", .string "integer")], .mapping [("type", .string "string")]])])
      ∧ schemaAt [.inner "items", .listed "anyOf" 0] (mapSchema downgradeSchema labelsSchema)
        = (schemaAt [.inner "items", .listed "anyOf" 0] labelsSchema).map
            (mapSchema downgradeSchema) := by
  have h : Survives [.inner "items", .listed "anyOf" 0] labelsSchema := by decide
  exact ⟨h, by decide, (keepsKeywords_mapSchema h).1⟩

/-- A code of up to three characters or from five on, which may be a text or an integer. -/
def codeSchema : Fields Value :=
  [("type", .list [.string "string", .string "integer"]),
    ("anyOf", .list [.mapping [("maxLength", .int 3)], .mapping [("minimum", .int 5)]])]

/-- **Alternatives are lost**: those for the types are written over the ones that were there. -/
theorem not_keepsKeywords_codeSchema :
    mapSchema downgradeSchema (.mapping codeSchema)
        = .mapping
          [("anyOf", .list
            [.mapping [("type", .string "string")], .mapping [("type", .string "integer")]])]
      ∧ ¬ ∀ schema result, mapSchema downgradeSchema (.mapping schema) = .mapping result →
        ∀ key, key ∉ rewordedKeys → Fields.get? result key
          = (Fields.get? schema key).map (withInner (mapSchema downgradeSchema) key) := by
  have hresult : mapSchema downgradeSchema (.mapping codeSchema)
      = .mapping
        [("anyOf", .list
          [.mapping [("type", .string "string")], .mapping [("type", .string "integer")]])] := by
    decide
  refine ⟨hresult, fun h => ?_⟩
  exact absurd (h codeSchema _ hresult "anyOf" (by decide)) (by decide)

end ApiClientGen.Canonical
