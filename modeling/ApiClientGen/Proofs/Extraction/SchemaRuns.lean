/-
How the types of schemas come about.

For each function that finds a type or makes a model, the lemmas here say all that a
successful run of it can be: which case it was, which questions had which answers, and where
the calls for types inside of it lead from and to.  What holds of every extraction is derived
from these cases.
-/
import ApiClientGen.Proofs.Extraction.Runs
import ApiClientGen.Proofs.Spec.Closed

namespace ApiClientGen.Extraction

open ApiClientGen.Document ApiClientGen.Reference ApiClientGen.Spec

namespace Scope

variable {s : Scope} {answer : Option Node → String → Extract TypeRef} {p p' : Progress}

/-! ### Records and enumerations -/

/-- A value that is listed is the one that is found as a whole. -/
theorem whole_of_listedValue {n : Node} {v : Value} (h : s.listedValue n = .ok v) :
    s.whole n = .ok v := by
  unfold listedValue at h
  obtain ⟨w, hw, h⟩ := except_bind_ok.mp h
  rw [hw]
  split at h
  · exact h
  · obtain ⟨-, -, h⟩ := except_bind_ok.mp h
    exact h

/-- An enumeration has the values of the list, null apart. -/
theorem enumeration_values {name : String} {fields : Fields Node} {schema : Schema}
    (h : s.enumeration name fields = .ok schema) :
    ∃ items values description, s.itemsOf (Fields.get? fields "enum") = .ok items
      ∧ (items.filter fun n => !isNothing (some n)).mapM s.whole = .ok values
      ∧ schema = ⟨name, description, .enumeration (values.map enumValueOf)⟩ := by
  unfold enumeration at h
  obtain ⟨items, hitems, h⟩ := except_bind_ok.mp h
  obtain ⟨values, hvalues, h⟩ := except_bind_ok.mp h
  obtain ⟨description, -, h⟩ := except_bind_ok.mp h
  exact ⟨items, values, description, hitems, except_mapM_ok_imp (fun _ _ => whole_of_listedValue) hvalues,
    (except_pure_ok.mp h).symm⟩

theorem enumeration_ok {name : String} {fields : Fields Node} {schema : Schema}
    (h : s.enumeration name fields = .ok schema) :
    ∃ values description, schema = ⟨name, description, .enumeration values⟩ := by
  obtain ⟨_, _, description, -, -, heq⟩ := enumeration_values h
  exact ⟨_, description, heq⟩

theorem recordField_ok {model name : String} {schema : Node} {required : List String}
    {field : RecordField}
    (h : (recordField answer s model name schema required).run p = .ok (field, p')) :
    ∃ type description default,
      (answer (some schema) (model ++ Naming.pascalCase name)).run p = .ok (type, p')
        ∧ field = ⟨name, type, required.contains name, description, default⟩ := by
  unfold recordField at h
  obtain ⟨fields, -, h⟩ := Extract.lift_bind_ok.mp h
  obtain ⟨type, p₁, htype, h⟩ := Extract.bind_ok.mp h
  obtain ⟨description, -, h⟩ := Extract.lift_bind_ok.mp h
  obtain ⟨rfl, rfl⟩ := Extract.pure_ok.mp h
  exact ⟨type, description, _, htype, rfl⟩

theorem record_ok {name : String} {schema : Node} {fields : Fields Node} {model : Schema}
    (h : (record answer s name schema fields).run p = .ok (model, p')) :
    ∃ found recordFields description isOpen,
      s.properties schema = .ok found
        ∧ (found.schemas.mapM fun e => recordField answer s name e.1 e.2 found.required).run p
            = .ok (recordFields, p')
        ∧ model = ⟨name, description, .record recordFields isOpen⟩ := by
  unfold record at h
  obtain ⟨found, hfound, h⟩ := Extract.lift_bind_ok.mp h
  obtain ⟨recordFields, p₁, hfields, h⟩ := Extract.bind_ok.mp h
  obtain ⟨description, -, h⟩ := Extract.lift_bind_ok.mp h
  dsimp only at h
  split at h
  · obtain ⟨isOpen, p₂, hopen, h⟩ := Extract.bind_ok.mp h
    obtain ⟨-, rfl⟩ := Extract.pure_ok.mp hopen
    obtain ⟨rfl, rfl⟩ := Extract.pure_ok.mp h
    exact ⟨found, recordFields, description, isOpen, hfound, hfields, rfl⟩
  · obtain ⟨isOpen, -, h⟩ := Extract.lift_bind_ok.mp h
    obtain ⟨rfl, rfl⟩ := Extract.pure_ok.mp h
    exact ⟨found, recordFields, description, isOpen, hfound, hfields, rfl⟩

/-! ### Types -/

theorem isPlain_textKind (format : Option String) : (textKind format).IsPlain := by
  unfold textKind
  split <;> exact ⟨by decide, by decide, by decide⟩

theorem isPlain_of_plainKind? {name : String} {kind : TypeKind} (h : plainKind? name = some kind) :
    kind.IsPlain := by
  unfold plainKind? at h
  split at h <;> cases h <;> exact ⟨by decide, by decide, by decide⟩

/-- How the type that a schema names comes about. -/
inductive NamedRun (answer : Option Node → String → Extract TypeRef) (s : Scope)
    (fields : Fields Node) (hint : String) (nullable : Bool) (p : Progress) :
    TypeRef → Progress → Prop where
  /-- The type has no parts. -/
  | plain {name : Option String} {hasNull : Bool} {kind : TypeKind}
      (hname : s.namedType fields = .ok (name, hasNull)) (hkind : kind.IsPlain) :
      NamedRun answer s fields hint nullable p (.primitive kind (nullable || hasNull)) p
  /-- The type is an array. -/
  | array {hasNull : Bool} {item : TypeRef} {p' : Progress}
      (hname : s.namedType fields = .ok (some "array", hasNull))
      (hitem : (answer (Fields.get? fields "items") (hint ++ "Item")).run p = .ok (item, p')) :
      NamedRun answer s fields hint nullable p (.arrayOf item (nullable || hasNull)) p'
  /-- The type is a map of values with a schema. -/
  | map {name : Option String} {hasNull : Bool} {value : TypeRef} {p' : Progress}
      (hname : s.namedType fields = .ok (name, hasNull))
      (hvalue : (answer (Fields.get? fields "additionalProperties") (hint ++ "Value")).run p
        = .ok (value, p')) :
      NamedRun answer s fields hint nullable p (.mapOf value (nullable || hasNull)) p'
  /-- The type is a map of any values. -/
  | anyMap {name : Option String} {hasNull : Bool}
      (hname : s.namedType fields = .ok (name, hasNull)) :
      NamedRun answer s fields hint nullable p (.mapOf .any (nullable || hasNull)) p

theorem namedTypeOf_ok {fields : Fields Node} {hint : String} {nullable : Bool} {t : TypeRef}
    (h : (namedTypeOf answer s fields hint nullable).run p = .ok (t, p')) :
    NamedRun answer s fields hint nullable p t p' := by
  unfold namedTypeOf at h
  obtain ⟨⟨name, hasNull⟩, hname, h⟩ := Extract.lift_bind_ok.mp h
  dsimp only at h
  split at h
  · obtain ⟨format, -, h⟩ := Extract.lift_bind_ok.mp h
    obtain ⟨rfl, rfl⟩ := Extract.pure_ok.mp h
    exact .plain hname (isPlain_textKind format)
  split at h
  · rename_i kind hkind
    obtain ⟨plainName, -, hplain⟩ := Option.bind_eq_some_iff.mp hkind
    obtain ⟨rfl, rfl⟩ := Extract.pure_ok.mp h
    exact .plain hname (isPlain_of_plainKind? hplain)
  split at h
  · rename_i harray
    obtain ⟨item, p₁, hitem, h⟩ := Extract.bind_ok.mp h
    obtain ⟨rfl, rfl⟩ := Extract.pure_ok.mp h
    exact .array (harray ▸ hname) hitem
  split at h
  · obtain ⟨isMapping, -, h⟩ := Extract.lift_bind_ok.mp h
    split at h
    · obtain ⟨value, p₁, hvalue, h⟩ := Extract.bind_ok.mp h
      obtain ⟨rfl, rfl⟩ := Extract.pure_ok.mp h
      exact .map hname hvalue
    · obtain ⟨value, p₁, hvalue, h⟩ := Extract.bind_ok.mp h
      obtain ⟨rfl, rfl⟩ := Extract.pure_ok.mp hvalue
      obtain ⟨rfl, rfl⟩ := Extract.pure_ok.mp h
      exact .anyMap hname
  · obtain ⟨rfl, rfl⟩ := Extract.pure_ok.mp h
    exact .plain hname ⟨by decide, by decide, by decide⟩

/-- How the type of a mapping comes about. -/
inductive MappingRun (answer : Option Node → String → Extract TypeRef) (s : Scope)
    (schema target : Node) (hint : String) (p : Progress) : TypeRef → Progress → Prop where
  /-- The texts of an enumeration become a model. -/
  | enumeration {t : TypeRef} {p' : Progress}
      (hhoist : (hoist hint fun name => liftM (s.enumeration name target.fields)).run p
        = .ok (t, p')) :
      MappingRun answer s schema target hint p
        (t.orNull (isTrue (Fields.get? target.fields "nullable"))) p'
  /-- The only part of a combined schema is its type. -/
  | only {parts : List Node} {t : TypeRef} {p' : Progress}
      (hparts : s.itemsOf (Fields.get? target.fields "allOf") = .ok parts)
      (hone : parts.length = 1) (hanswer : (answer parts.head? hint).run p = .ok (t, p')) :
      MappingRun answer s schema target hint p
        (t.orNull (isTrue (Fields.get? target.fields "nullable"))) p'
  /-- A record becomes a model. -/
  | record {t : TypeRef} {p' : Progress}
      (hhoist : (hoist hint fun name => record answer s name schema target.fields).run p
        = .ok (t, p')) :
      MappingRun answer s schema target hint p
        (t.orNull (isTrue (Fields.get? target.fields "nullable"))) p'
  /-- Any other schema names its type. -/
  | named {t : TypeRef} {p' : Progress}
      (hnamed : NamedRun answer s target.fields hint
        (isTrue (Fields.get? target.fields "nullable")) p t p') :
      MappingRun answer s schema target hint p t p'

theorem ownTypeOf_ok {schema target : Node} {hint : String} {t : TypeRef}
    (h : (ownTypeOf answer s schema target hint
      (isTrue (Fields.get? target.fields "nullable"))).run p = .ok (t, p')) :
    MappingRun answer s schema target hint p t p' := by
  unfold ownTypeOf at h
  obtain ⟨isRecord, -, h⟩ := Extract.lift_bind_ok.mp h
  split at h
  · obtain ⟨u, p₁, hhoist, h⟩ := Extract.bind_ok.mp h
    obtain ⟨rfl, rfl⟩ := Extract.pure_ok.mp h
    exact .record hhoist
  · exact .named (namedTypeOf_ok h)

theorem typeOfMapping_ok {schema target : Node} {hint : String} {t : TypeRef}
    (h : (typeOfMapping answer s schema target hint).run p = .ok (t, p')) :
    MappingRun answer s schema target hint p t p' := by
  unfold typeOfMapping at h
  obtain ⟨isText, -, h⟩ := Extract.lift_bind_ok.mp h
  split at h
  · obtain ⟨u, p₁, hhoist, h⟩ := Extract.bind_ok.mp h
    obtain ⟨rfl, rfl⟩ := Extract.pure_ok.mp h
    exact .enumeration hhoist
  obtain ⟨parts, hparts, h⟩ := Extract.lift_bind_ok.mp h
  split at h
  · rename_i hone
    obtain ⟨hasProperties, -, h⟩ := Extract.lift_bind_ok.mp h
    split at h
    · obtain ⟨u, p₁, hanswer, h⟩ := Extract.bind_ok.mp h
      obtain ⟨rfl, rfl⟩ := Extract.pure_ok.mp h
      exact .only hparts hone hanswer
    · exact ownTypeOf_ok h
  · exact ownTypeOf_ok h

/-- How a call for a type is answered. -/
inductive CallRun (answer : Call → Extract TypeRef) (s : Scope) (c : Call) (p : Progress) :
    TypeRef → Progress → Prop where
  /-- There is no schema. -/
  | missing (hnone : c.schema = none) : CallRun answer s c p .any p
  /-- The schema is a reference to a model. -/
  | model {schema : Node} {name : String} (hschema : c.schema = some schema)
      (hmodel : s.modelOf? schema = .ok (some name)) : CallRun answer s c p (.reference name) p
  /-- The schema is no mapping, or its type is being found. -/
  | closed {schema target : Node} (hschema : c.schema = some schema)
      (hown : s.modelOf? schema = .ok none) (htarget : s.follow schema = .ok target)
      (hclosed : target.value.isMapping = false ∨ target.place ∈ c.opened) :
      CallRun answer s c p .any p
  /-- The schema is a mapping whose type is found now. -/
  | mapping {schema target : Node} {t : TypeRef} {p' : Progress} (hschema : c.schema = some schema)
      (hown : s.modelOf? schema = .ok none) (htarget : s.follow schema = .ok target)
      (hmapping : target.value.isMapping = true) (hopen : target.place ∉ c.opened)
      (hrun : MappingRun (fun part hint => answer ⟨target.place :: c.opened, part, hint⟩) s schema
        target c.hint p t p') :
      CallRun answer s c p t p'

theorem typeStep_ok {answer : Call → Extract TypeRef} {c : Call} {t : TypeRef}
    (h : (s.typeStep answer c).run p = .ok (t, p')) : CallRun answer s c p t p' := by
  unfold typeStep at h
  split at h
  · rename_i hnone
    obtain ⟨rfl, rfl⟩ := Extract.pure_ok.mp h
    exact .missing hnone
  · rename_i schema hschema
    obtain ⟨model, hmodel, h⟩ := Extract.lift_bind_ok.mp h
    cases model with
    | some model =>
        obtain ⟨rfl, rfl⟩ := Extract.pure_ok.mp h
        exact .model hschema hmodel
    | none =>
        obtain ⟨target, htarget, h⟩ := Extract.lift_bind_ok.mp h
        split at h
        · rename_i hclosed
          obtain ⟨rfl, rfl⟩ := Extract.pure_ok.mp h
          exact .closed hschema hmodel htarget (by simpa using hclosed)
        · rename_i hclosed
          simp only [Bool.or_eq_true, Bool.not_eq_true', not_or, List.contains_iff_mem] at hclosed
          exact .mapping hschema hmodel htarget (by simpa using hclosed.1) hclosed.2
            (typeOfMapping_ok h)

/-! ### Schemas of the whole document -/

/-- How the model for a schema of the whole document comes about. -/
inductive ComponentRun (s : Scope) (name : String) (schema : Node) (p : Progress) :
    Schema → Progress → Prop where
  /-- The schema is a reference to another model. -/
  | model {other : String} (hmodel : s.modelOf? schema = .ok (some other)) :
      ComponentRun s name schema p { name, shape := .alias (.reference other) } p
  /-- The schema is an enumeration. -/
  | enumeration {fields : Fields Node} {model : Schema} (hown : s.modelOf? schema = .ok none)
      (hfields : s.fieldsOf (some schema) = .ok fields)
      (henum : (Fields.get? fields "enum").isSome = true)
      (henumeration : s.enumeration name fields = .ok model) :
      ComponentRun s name schema p model p
  /-- The schema is a record. -/
  | record {fields : Fields Node} {model : Schema} {p' : Progress}
      (hown : s.modelOf? schema = .ok none) (hfields : s.fieldsOf (some schema) = .ok fields)
      (hisRecord : s.isRecord fields = .ok true)
      (hrecord : (record s.typeOf s name schema fields).run p = .ok (model, p')) :
      ComponentRun s name schema p model p'
  /-- The schema is a name for a type. -/
  | synonym {fields : Fields Node} {type : TypeRef} {description : Option String} {p' : Progress}
      (hown : s.modelOf? schema = .ok none) (hfields : s.fieldsOf (some schema) = .ok fields)
      (henum : Fields.get? fields "enum" = none) (hisRecord : s.isRecord fields = .ok false)
      (htype : (s.typeOf (some schema) (name ++ "Item")).run p = .ok (type, p')) :
      ComponentRun s name schema p ⟨name, description, .alias type⟩ p'

theorem component_ok {name : String} {schema : Node} {model : Schema}
    (h : (s.component name schema).run p = .ok (model, p')) :
    ComponentRun s name schema p model p' := by
  unfold component at h
  obtain ⟨referenced, hreferenced, h⟩ := Extract.lift_bind_ok.mp h
  cases referenced with
  | some other =>
      obtain ⟨rfl, rfl⟩ := Extract.pure_ok.mp h
      exact .model hreferenced
  | none =>
      obtain ⟨fields, hfields, h⟩ := Extract.lift_bind_ok.mp h
      split at h
      · rename_i henum
        obtain ⟨henumeration, rfl⟩ := Extract.lift_ok.mp h
        exact .enumeration hreferenced hfields henum henumeration
      rename_i henum
      obtain ⟨isRecord, hisRecord, h⟩ := Extract.lift_bind_ok.mp h
      cases isRecord with
      | true => exact .record hreferenced hfields hisRecord h
      | false =>
          obtain ⟨type, p₁, htype, h⟩ := Extract.bind_ok.mp h
          obtain ⟨description, -, h⟩ := Extract.lift_bind_ok.mp h
          obtain ⟨rfl, rfl⟩ := Extract.pure_ok.mp h
          exact .synonym hreferenced hfields (by simpa using henum) hisRecord htype

end Scope

end ApiClientGen.Extraction
