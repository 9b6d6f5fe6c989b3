/-
Where the types of an interface come from.

Every type of an interface stands for a schema of the document.  The relation here goes through
the ways in which the type of a schema is found, and into what is found inside of it: the items
of arrays, the values of maps, the fields of records made on the way.  It does not speak of what
is kept in mind while an interface is taken: a model that was made on the way is looked up among
the schemas that are there in the end, since nothing that is written is taken back.

So it can be asked of every type what its schema says, whichever way the type was found.
-/
import ApiClientGen.Proofs.Extraction.Interfaces
import ApiClientGen.Proofs.Extraction.Widening

namespace ApiClientGen.Extraction

open ApiClientGen.Document ApiClientGen.Reference ApiClientGen.Spec

/-! ### Parts that write -/

/-- Every run of a part keeps what is written, and gives what fits the schemas there in the end. -/
def Extract.Writes {α : Type} (written : Fields Schema) (R : α → Prop) (m : Extract α) : Prop :=
  ∀ ⦃p a p'⦄, m.run p = .ok (a, p') → p.schemas ⊆ p'.schemas ∧ (p'.schemas ⊆ written → R a)

namespace Extract.Writes

variable {α β : Type} {written : Fields Schema}

/-- A part may be run on each of several things in a row. -/
theorem mapM {R : α → β → Prop} {f : α → Extract β} {l : List α}
    (h : ∀ a ∈ l, Writes written (R a) (f a)) : Writes written (List.Forall₂ R l) (l.mapM f) := by
  induction l with
  | nil =>
      intro p bs p' hrun
      obtain ⟨rfl, rfl⟩ := mapM_nil_ok.mp hrun
      exact ⟨List.Subset.refl _, fun _ => .nil⟩
  | cons a l ih =>
      intro p bs p' hrun
      obtain ⟨b, rest, p₁, hb, hrest, rfl⟩ := mapM_cons_ok.mp hrun
      obtain ⟨hkept, hfirst⟩ := h a (by simp) hb
      obtain ⟨hkept', hothers⟩ := ih (fun x hx => h x (List.mem_cons_of_mem _ hx)) hrest
      exact ⟨List.Subset.trans hkept hkept', fun hsub =>
        .cons (hfirst (List.Subset.trans hkept' hsub)) (hothers hsub)⟩

/-- A model of its own is among the schemas in the end. -/
theorem hoist {P : String → Schema → Prop} {hint : String} {model : String → Extract Schema}
    (h : ∀ name, Writes written (P name) (model name)) :
    Writes written (fun t => ∃ name schema, t = .reference name ∧ (name, schema) ∈ written
      ∧ P name schema) (Scope.hoist hint model) := by
  intro p t p' hrun
  obtain ⟨schema, p₁, hschema, rfl, rfl⟩ := hoist_ok.mp hrun
  obtain ⟨hkept, hfits⟩ := h _ hschema
  refine ⟨fun e he => List.mem_append_left _ (hkept he), fun hsub => ?_⟩
  exact ⟨_, schema, rfl, hsub (by simp), hfits fun e he => hsub (List.mem_append_left _ he)⟩

end Extract.Writes

open Extract

namespace Scope

/-! ### The schema that a type stands for -/

/-- The type of a schema is found in the mapping behind it, which is not open yet. -/
structure Opens (s : Scope) (opened : List Place) (schema target : Node) : Prop where
  own : s.modelOf? schema = .ok none
  behind : s.follow schema = .ok target
  isMapping : target.value.isMapping = true
  isNew : target.place ∉ opened

/-- Whether a schema says of itself that null is allowed. -/
def allowsNull (target : Node) : Bool := isTrue (Fields.get? target.fields "nullable")

mutual

/--
A type stands for a schema that may be missing, with the types of some schemas being found
around it, and the schemas of the interface as they are in the end.
-/
inductive TypeFor (s : Scope) (written : Fields Schema) :
    List Place → Option Node → TypeRef → Prop where
  /-- There is no schema. -/
  | missing {opened : List Place} : TypeFor s written opened none .any
  /-- The schema is a reference to a model. -/
  | model {opened : List Place} {schema : Node} {name : String}
      (hmodel : s.modelOf? schema = .ok (some name)) :
      TypeFor s written opened (some schema) (.reference name)
  /-- The schema is no mapping, or its type is being found. -/
  | closed {opened : List Place} {schema target : Node} (hown : s.modelOf? schema = .ok none)
      (htarget : s.follow schema = .ok target)
      (hclosed : target.value.isMapping = false ∨ target.place ∈ opened) :
      TypeFor s written opened (some schema) .any
  /-- The schema lists texts, which have become an enumeration. -/
  | enumeration {opened : List Place} {schema target : Node} {name : String}
      {description : Option String} {values : List EnumValue}
      (hopens : s.Opens opened schema target)
      (hwritten : (name, ⟨name, description, .enumeration values⟩) ∈ written) :
      TypeFor s written opened (some schema) ((TypeRef.reference name).orNull (allowsNull target))
  /-- The only part of a combined schema is its type. -/
  | only {opened : List Place} {schema target : Node} {parts : List Node} {t : TypeRef}
      (hopens : s.Opens opened schema target)
      (hparts : s.itemsOf (Fields.get? target.fields "allOf") = .ok parts)
      (hone : parts.length = 1)
      (hpart : TypeFor s written (target.place :: opened) parts.head? t) :
      TypeFor s written opened (some schema) (t.orNull (allowsNull target))
  /-- The schema has become a record. -/
  | record {opened : List Place} {schema target : Node} {found : Properties} {name : String}
      {description : Option String} {fields : List RecordField} {isOpen : Bool}
      (hopens : s.Opens opened schema target) (hfound : s.properties schema = .ok found)
      (hwritten : (name, ⟨name, description, .record fields isOpen⟩) ∈ written)
      (hfields : FieldsFor s written (target.place :: opened) found.schemas fields) :
      TypeFor s written opened (some schema) ((TypeRef.reference name).orNull (allowsNull target))
  /-- The type has no parts. -/
  | plain {opened : List Place} {schema target : Node} {name : Option String} {hasNull : Bool}
      {kind : TypeKind} (hopens : s.Opens opened schema target)
      (hname : s.namedType target.fields = .ok (name, hasNull)) (hkind : kind.IsPlain) :
      TypeFor s written opened (some schema) (.primitive kind (allowsNull target || hasNull))
  /-- The type is an array. -/
  | array {opened : List Place} {schema target : Node} {hasNull : Bool} {item : TypeRef}
      (hopens : s.Opens opened schema target)
      (hname : s.namedType target.fields = .ok (some "array", hasNull))
      (hitem : TypeFor s written (target.place :: opened)
        (Fields.get? target.fields "items") item) :
      TypeFor s written opened (some schema) (.arrayOf item (allowsNull target || hasNull))
  /-- The type is a map of values with a schema. -/
  | map {opened : List Place} {schema target : Node} {name : Option String} {hasNull : Bool}
      {value : TypeRef} (hopens : s.Opens opened schema target)
      (hname : s.namedType target.fields = .ok (name, hasNull))
      (hvalue : TypeFor s written (target.place :: opened)
        (Fields.get? target.fields "additionalProperties") value) :
      TypeFor s written opened (some schema) (.mapOf value (allowsNull target || hasNull))
  /-- The type is a map of any values. -/
  | anyMap {opened : List Place} {schema target : Node} {name : Option String} {hasNull : Bool}
      (hopens : s.Opens opened schema target)
      (hname : s.namedType target.fields = .ok (name, hasNull)) :
      TypeFor s written opened (some schema) (.mapOf .any (allowsNull target || hasNull))

/-- The fields of a record have the names of properties, and their types stand for these. -/
inductive FieldsFor (s : Scope) (written : Fields Schema) :
    List Place → Fields Node → List RecordField → Prop where
  | nil {opened : List Place} : FieldsFor s written opened [] []
  | cons {opened : List Place} {schema : Node} {properties : Fields Node} {field : RecordField}
      {fields : List RecordField} (htype : TypeFor s written opened (some schema) field.type)
      (hfields : FieldsFor s written opened properties fields) :
      FieldsFor s written opened ((field.name, schema) :: properties) (field :: fields)

end

variable {s : Scope} {document : Value} {written : Fields Schema} {opened : List Place}
  {p p' : Progress}

theorem fieldsFor_of_forall₂ {properties : Fields Node} {fields : List RecordField}
    (h : List.Forall₂ (fun e f => f.name = e.1 ∧ s.TypeFor written opened (some e.2) f.type)
      properties fields) : s.FieldsFor written opened properties fields := by
  induction h with
  | nil => exact .nil
  | cons hfirst _ ih =>
      obtain ⟨hname, htype⟩ := hfirst
      rename_i e f _ _ _
      obtain ⟨key, n⟩ := e
      obtain rfl := hname
      exact .cons htype ih

/-! ### One level -/

section

variable {answer : Option Node → String → Extract TypeRef} (hs : s.Within document)
  (hanswer : ∀ part hint, LocatedOption document part →
    Writes written (s.TypeFor written opened part) (answer part hint))

include hanswer

theorem recordField_writes (model name : String) {schema : Node} (required : List String)
    (hschema : Located document schema) :
    Writes written (fun f => f.name = name ∧ s.TypeFor written opened (some schema) f.type)
      (recordField answer s model name schema required) := by
  intro p field p' hrun
  obtain ⟨type, description, default, htype, rfl⟩ := recordField_ok hrun
  obtain ⟨hkept, hfits⟩ := hanswer _ _ (locatedOption_some hschema) htype
  exact ⟨hkept, fun hsub => ⟨rfl, hfits hsub⟩⟩

include hs

theorem record_writes (name : String) {schema : Node} (fields : Fields Node)
    (hschema : Located document schema) :
    Writes written (fun model => ∃ found description recordFields isOpen,
        s.properties schema = .ok found
          ∧ model = ⟨name, description, .record recordFields isOpen⟩
          ∧ s.FieldsFor written opened found.schemas recordFields)
      (record answer s name schema fields) := by
  intro p model p' hrun
  obtain ⟨found, recordFields, description, isOpen, hfound, hfields, rfl⟩ := record_ok hrun
  have hlocated := hs.properties hschema hfound
  obtain ⟨hkept, hfits⟩ := Writes.mapM (fun e he =>
    recordField_writes hanswer name e.1 found.required (hlocated e he)) hfields
  exact ⟨hkept, fun hsub => ⟨found, description, recordFields, isOpen, hfound, rfl,
    fieldsFor_of_forall₂ (hfits hsub)⟩⟩

end

theorem enumeration_writes (name : String) (fields : Fields Node) :
    Writes written (fun model => ∃ description values,
      model = ⟨name, description, .enumeration values⟩) (liftM (s.enumeration name fields)) := by
  intro p model p' hrun
  obtain ⟨hmodel, rfl⟩ := lift_ok.mp hrun
  obtain ⟨values, description, rfl⟩ := enumeration_ok hmodel
  exact ⟨List.Subset.refl _, fun _ => ⟨description, values, rfl⟩⟩

section

variable {answer : Option Node → String → Extract TypeRef} {schema target : Node} {hint : String}
  {t : TypeRef} (hopens : s.Opens opened schema target) (hlocated : Located document target)
  (hanswer : ∀ part hint, LocatedOption document part →
    Writes written (s.TypeFor written (target.place :: opened) part) (answer part hint))

include hopens hlocated hanswer

theorem NamedRun.typeFor
    (h : NamedRun answer s target.fields hint (allowsNull target) p t p') :
    p.schemas ⊆ p'.schemas
      ∧ (p'.schemas ⊆ written → s.TypeFor written opened (some schema) t) := by
  have hfields : LocatedFields document target.fields := fun e he => hlocated.field he
  cases h with
  | plain hname hkind => exact ⟨List.Subset.refl _, fun _ => .plain hopens hname hkind⟩
  | array hname hitem =>
      obtain ⟨hkept, hfits⟩ := hanswer _ _ (hfields.get? "items") hitem
      exact ⟨hkept, fun hsub => .array hopens hname (hfits hsub)⟩
  | map hname hvalue =>
      obtain ⟨hkept, hfits⟩ := hanswer _ _ (hfields.get? "additionalProperties") hvalue
      exact ⟨hkept, fun hsub => .map hopens hname (hfits hsub)⟩
  | anyMap hname => exact ⟨List.Subset.refl _, fun _ => .anyMap hopens hname⟩

theorem MappingRun.typeFor (hs : s.Within document) (hschema : Located document schema)
    (h : MappingRun answer s schema target hint p t p') :
    p.schemas ⊆ p'.schemas
      ∧ (p'.schemas ⊆ written → s.TypeFor written opened (some schema) t) := by
  have hfields : LocatedFields document target.fields := fun e he => hlocated.field he
  cases h with
  | enumeration hhoist =>
      obtain ⟨hkept, hfits⟩ := Writes.hoist (fun name => enumeration_writes name _) hhoist
      refine ⟨hkept, fun hsub => ?_⟩
      obtain ⟨name, _, rfl, hwritten, description, values, rfl⟩ := hfits hsub
      exact .enumeration hopens hwritten
  | only hparts hone hpart =>
      have hhead := (hs.itemsOf (hfields.get? "allOf") hparts).head?
      obtain ⟨hkept, hfits⟩ := hanswer _ _ hhead hpart
      exact ⟨hkept, fun hsub => .only hopens hparts hone (hfits hsub)⟩
  | record hhoist =>
      obtain ⟨hkept, hfits⟩ :=
        Writes.hoist (fun name => record_writes hs hanswer name _ hschema) hhoist
      refine ⟨hkept, fun hsub => ?_⟩
      obtain ⟨name, _, rfl, hwritten, found, description, fields, isOpen, hfound, rfl, hfor⟩ :=
        hfits hsub
      exact .record hopens hfound hwritten hfor
  | named hnamed => exact hnamed.typeFor hopens hlocated hanswer

end

/-! ### All levels -/

section

variable (hs : s.Wide document)

include hs

/--
What is found stands for the schema, since there are levels left for all mappings that are not
open yet.
-/
theorem typeWithin_writes {levels : Nat} {c : Call} (hc : LocatedOption document c.schema)
    (h : remaining (mappingPlaces document) c.opened < levels) :
    Writes written (s.TypeFor written c.opened c.schema) (s.typeWithin levels c) := by
  induction levels generalizing c with
  | zero => exact absurd h (Nat.not_lt_zero _)
  | succ levels ih =>
      intro p t p' hrun
      obtain ⟨opened, schema, hint⟩ := c
      cases typeStep_ok hrun with
      | missing hnone =>
          obtain rfl := hnone
          exact ⟨List.Subset.refl _, fun _ => .missing⟩
      | model hschema hmodel =>
          obtain rfl := hschema
          exact ⟨List.Subset.refl _, fun _ => .model hmodel⟩
      | closed hschema hown htarget hclosed =>
          obtain rfl := hschema
          exact ⟨List.Subset.refl _, fun _ => .closed hown htarget hclosed⟩
      | @mapping schema target _ _ hschema hown htarget hmapping hopen hrun =>
          obtain rfl := hschema
          have hschema := hc schema rfl
          have hlocated := hs.follow hschema htarget
          -- The mapping that is open now was not open before, so that fewer of them remain.
          have hfewer : remaining (mappingPlaces document) (target.place :: opened) < levels :=
            Nat.lt_of_lt_of_le (remaining_cons_lt (hlocated.place_mem hmapping) hopen)
              (Nat.le_of_lt_succ h)
          exact hrun.typeFor ⟨hown, htarget, hmapping, hopen⟩ hlocated
            (fun part hint hpart => ih hpart hfewer) hs.toWithin hschema

theorem typeOf_writes {schema : Option Node} (hint : String)
    (hschema : LocatedOption document schema) :
    Writes written (s.TypeFor written [] schema) (s.typeOf schema hint) :=
  typeWithin_writes hs (c := { schema, hint }) hschema hs.remaining_lt

end

/-! ### Schemas of the whole document -/

/-- A schema of the interface is the model for a schema of the whole document. -/
inductive ModelFor (s : Scope) (written : Fields Schema) (name : String) (schema : Node) :
    Schema → Prop where
  /-- The model is another name for the type of the schema. -/
  | synonym {description : Option String} {t : TypeRef}
      (htype : s.TypeFor written [] (some schema) t) :
      ModelFor s written name schema ⟨name, description, .alias t⟩
  /-- The model is the enumeration that the schema is. -/
  | enumeration {fields : Fields Node} {description : Option String} {values : List EnumValue}
      (hown : s.modelOf? schema = .ok none) (hfields : s.fieldsOf (some schema) = .ok fields)
      (henum : (Fields.get? fields "enum").isSome = true) :
      ModelFor s written name schema ⟨name, description, .enumeration values⟩
  /-- The model is the record that the schema is. -/
  | record {fields : Fields Node} {found : Properties} {description : Option String}
      {recordFields : List RecordField} {isOpen : Bool} (hown : s.modelOf? schema = .ok none)
      (hfields : s.fieldsOf (some schema) = .ok fields) (hisRecord : s.isRecord fields = .ok true)
      (hfound : s.properties schema = .ok found)
      (hfieldsFor : s.FieldsFor written [] found.schemas recordFields) :
      ModelFor s written name schema ⟨name, description, .record recordFields isOpen⟩

section

variable (hs : s.Wide document)

include hs

theorem component_writes (name : String) {schema : Node} (hschema : Located document schema) :
    Writes written (s.ModelFor written name schema) (s.component name schema) := by
  intro p model p' hrun
  cases component_ok hrun with
  | model hmodel => exact ⟨List.Subset.refl _, fun _ => .synonym (.model hmodel)⟩
  | enumeration hown hfields henum henumeration =>
      obtain ⟨values, description, rfl⟩ := enumeration_ok henumeration
      exact ⟨List.Subset.refl _, fun _ => .enumeration hown hfields henum⟩
  | record hown hfields hisRecord hrecord =>
      obtain ⟨hkept, hfits⟩ := record_writes hs.toWithin
        (fun part hint hpart => typeOf_writes hs hint hpart) name _ hschema hrecord
      refine ⟨hkept, fun hsub => ?_⟩
      obtain ⟨found, description, recordFields, isOpen, hfound, rfl, hfieldsFor⟩ := hfits hsub
      exact .record hown hfields hisRecord hfound hfieldsFor
  | synonym hown hfields henum hisRecord htype =>
      obtain ⟨hkept, hfits⟩ := typeOf_writes hs _ (locatedOption_some hschema) htype
      exact ⟨hkept, fun hsub => .synonym (hfits hsub)⟩

/-- Every schema of the whole document that has a name has its model among the schemas. -/
theorem components_writes {schemas : Fields Node} (hschemas : LocatedFields document schemas) :
    Writes written (fun _ => ∀ e ∈ schemas, ∀ name, Fields.get? s.models e.1 = some name →
      ∃ model, (name, model) ∈ written ∧ s.ModelFor written name e.2 model)
      (s.components schemas) := by
  induction schemas with
  | nil =>
      intro p u p' hrun
      obtain rfl := components_nil_ok hrun
      exact ⟨List.Subset.refl _, fun _ e he => nomatch he⟩
  | cons first rest ih =>
      obtain ⟨hfirst, hrest⟩ := List.forall_mem_cons.mp hschemas
      intro p u p' hrun
      rcases components_cons_ok hrun with ⟨hnone, hrun⟩ | ⟨name, model, p₁, hname, hmodel, hrun⟩
      · obtain ⟨hkept, hfits⟩ := ih hrest hrun
        refine ⟨hkept, fun hsub => List.forall_mem_cons.mpr ⟨fun name hname => ?_, hfits hsub⟩⟩
        rw [hnone] at hname
        cases hname
      · obtain ⟨hkept, hfits⟩ := component_writes hs name hfirst hmodel
        obtain ⟨hkept', hfits'⟩ := ih hrest hrun
        have hwritten : p₁.schemas ++ [(name, model)] ⊆ p'.schemas := hkept'
        refine ⟨fun e he => hwritten (List.mem_append_left _ (hkept he)), fun hsub => ?_⟩
        refine List.forall_mem_cons.mpr ⟨fun other hother => ?_, hfits' hsub⟩
        obtain rfl := Option.some.inj (hname.symm.trans hother)
        exact ⟨model, hsub (hwritten (by simp)),
          hfits fun e he => hsub (hwritten (List.mem_append_left _ he))⟩

end

end Scope

end ApiClientGen.Extraction
