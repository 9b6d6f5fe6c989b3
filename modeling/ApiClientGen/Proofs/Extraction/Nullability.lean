/-
Types that allow null.

A schema that says of itself that null is allowed has a type that allows it, by itself or by way
of the schemas that it is another name for.  Each way in which a type is found keeps what the
mapping behind the schema says.  Only two of them never look at that mapping: a schema whose own
type is being found allows any value, and a reference to a schema of the whole document is the
name of its model.  So what is said here leaves out schemas that come up inside of themselves; and
behind the name of a model it goes on with the schema that the model was made of, as long as that
is another name for a type.  A model that is a record or an enumeration has no room for null.
-/
import ApiClientGen.Proofs.Extraction.ComponentReferences
import ApiClientGen.Proofs.Extraction.Descriptions

namespace ApiClientGen.Spec

namespace ApiSpec

/-- The type that a schema of an interface is another name for. -/
def synonym? (spec : ApiSpec) (name : String) : Option TypeRef :=
  (spec.schema? name).bind fun schema =>
    match schema.shape with
    | .alias t => some t
    | _ => none

/-- A type of an interface allows null, by itself or by way of what it is another name for. -/
inductive AllowsNull (spec : ApiSpec) : TypeRef → Prop where
  | itself {t : TypeRef} (h : t.nullable = true) : AllowsNull spec t
  | named {t u : TypeRef} {name : String} (hkind : t.kind = .model) (hname : t.model = some name)
      (hsynonym : spec.synonym? name = some u) (hu : AllowsNull spec u) : AllowsNull spec t

variable {spec : ApiSpec}

theorem allowsNull_reference {name : String} :
    spec.AllowsNull (.reference name) ↔ ∃ u, spec.synonym? name = some u ∧ spec.AllowsNull u := by
  constructor
  · intro h
    cases h with
    | itself h => cases h
    | named _ hname hsynonym hu =>
        cases hname
        exact ⟨_, hsynonym, hu⟩
  · rintro ⟨u, hsynonym, hu⟩
    exact .named rfl rfl hsynonym hu

theorem allowsNull_primitive {kind : TypeKind} (hkind : kind ≠ .model) {nullable : Bool} :
    spec.AllowsNull (.primitive kind nullable) ↔ nullable = true := by
  constructor
  · intro h
    cases h with
    | itself h => exact h
    | named hmodel => exact absurd hmodel hkind
  · intro h
    exact .itself h

end ApiSpec

end ApiClientGen.Spec

namespace ApiClientGen.Extraction

open ApiClientGen.Canonical ApiClientGen.Document ApiClientGen.Reference ApiClientGen.Spec

namespace Scope

variable {s : Scope} {written : Fields Schema} {opened : List Place} {n target : Node} {t : TypeRef}

/-! ### One schema -/

/-- A schema that says that null is allowed is a mapping. -/
theorem isMapping_of_allowsNull (h : allowsNull target = true) : target.value.isMapping = true := by
  obtain ⟨place, value⟩ := target
  cases value with
  | scalar v => cases h
  | list vs => cases h
  | mapping fields => rfl

/-- A type for a schema is the name of its model, or any; or it keeps what the mapping says. -/
inductive Kept (s : Scope) (opened : List Place) (n : Node) : TypeRef → Prop where
  | model {name : String} (hmodel : s.modelOf? n = .ok (some name)) :
      Kept s opened n (.reference name)
  | closed {target : Node} (hown : s.modelOf? n = .ok none) (htarget : s.follow n = .ok target)
      (hclosed : target.value.isMapping = false ∨ target.place ∈ opened) : Kept s opened n .any
  | opened {target : Node} {t : TypeRef} (hopens : s.Opens opened n target)
      (hnull : allowsNull target = true → t.nullable = true) : Kept s opened n t

/-- **Every type that is found in a mapping keeps what the mapping says of null.** -/
theorem TypeFor.kept (h : s.TypeFor written opened (some n) t) : s.Kept opened n t := by
  have horNull : ∀ {target} (t : TypeRef), allowsNull target = true →
      (t.orNull (allowsNull target)).nullable = true := fun t hnull => by
    rw [hnull]
    rfl
  have hor : ∀ {target} (hasNull : Bool), allowsNull target = true →
      (allowsNull target || hasNull) = true := fun hasNull hnull => by
    rw [hnull]
    rfl
  cases h with
  | model hmodel => exact .model hmodel
  | closed hown htarget hclosed => exact .closed hown htarget hclosed
  | enumeration hopens => exact .opened hopens (horNull _)
  | only hopens => exact .opened hopens (horNull _)
  | record hopens => exact .opened hopens (horNull _)
  | plain hopens => exact .opened hopens (hor _)
  | array hopens => exact .opened hopens (hor _)
  | map hopens => exact .opened hopens (hor _)
  | anyMap hopens => exact .opened hopens (hor _)

/-- A reference to a model has its name for a type. -/
theorem TypeFor.eq_reference {name : String} (h : s.TypeFor written opened (some n) t)
    (hmodel : s.modelOf? n = .ok (some name)) : t = .reference name := by
  have hother : s.modelOf? n ≠ .ok none := by
    rw [hmodel]
    exact nofun
  cases h.kept with
  | model hname =>
      rw [hmodel] at hname
      cases hname
      rfl
  | closed hown => exact absurd hown hother
  | opened hopens => exact absurd hopens.own hother

/-- The type of a schema that is no reference to a model, unless it is being found. -/
theorem TypeFor.nullable (h : s.TypeFor written opened (some n) t)
    (hown : s.modelOf? n = .ok none) (htarget : s.follow n = .ok target)
    (hnull : allowsNull target = true) (hopen : target.place ∉ opened) : t.nullable = true := by
  cases h.kept with
  | model hmodel =>
      rw [hown] at hmodel
      cases hmodel
  | closed _ hbehind hclosed =>
      obtain rfl := Except.ok.inj (hbehind.symm.trans htarget)
      rcases hclosed with hmapping | hplace
      · rw [isMapping_of_allowsNull hnull] at hmapping
        cases hmapping
      · exact absurd hplace hopen
  | opened hopens hkept =>
      obtain rfl := Except.ok.inj (hopens.behind.symm.trans htarget)
      exact hkept hnull

/-! ### Schemas of the whole document -/

/--
The type of a schema is found in the mapping behind it, if need be by way of schemas of the whole
document that are other names for it.
-/
inductive FoundIn (s : Scope) (parts : Parts) : List Place → Node → Node → Prop where
  /-- The schema is no reference to a model, and its type is not being found. -/
  | own {opened : List Place} {n target : Node} (hown : s.modelOf? n = .ok none)
      (htarget : s.follow n = .ok target) (hopen : target.place ∉ opened) :
      FoundIn s parts opened n target
  /--
  The schema is a reference that leads to the schema of the model which it names, and that is
  neither an enumeration nor a record.
  -/
  | component {opened : List Place} {n m target : Node} {name model : String}
      (hmodel : s.modelOf? n = .ok (some model)) (htarget : s.follow n = .ok target)
      (hname : Fields.get? s.models name = some model)
      (hm : Fields.get? parts.schemas name = some m)
      (henum : Fields.get? target.fields "enum" = none)
      (hisRecord : s.isRecord target.fields = .ok false) (hfound : FoundIn s parts [] m target) :
      FoundIn s parts opened n target

variable {parts : Parts} {spec : ApiSpec}

theorem FoundIn.behind (h : s.FoundIn parts opened n target) : s.follow n = .ok target := by
  cases h with
  | own hown htarget hopen => exact htarget
  | component hmodel htarget => exact htarget

/-- The model for a schema that is neither an enumeration nor a record is another name. -/
theorem ModelFor.synonym_of {name : String} {model : Schema}
    (h : s.ModelFor written name n model) (htarget : s.follow n = .ok target)
    (henum : Fields.get? target.fields "enum" = none)
    (hisRecord : s.isRecord target.fields = .ok false) :
    ∃ description t, model = ⟨name, description, .alias t⟩ ∧ s.TypeFor written [] (some n) t := by
  have hseen : ∀ {fields}, s.fieldsOf (some n) = .ok fields → fields = target.fields := by
    intro fields hfields
    obtain ⟨behind, hbehind, rfl⟩ := fieldsOf_some_ok hfields
    rw [Except.ok.inj (hbehind.symm.trans htarget)]
  cases h with
  | synonym htype => exact ⟨_, _, rfl, htype⟩
  | enumeration _ hfields hsome =>
      rw [hseen hfields, henum] at hsome
      cases hsome
  | record _ hfields htrue =>
      rw [hseen hfields, hisRecord] at htrue
      cases htrue

/-- If the mapping that a type is found in allows null, so does the type under all its names. -/
theorem Describes.allowsNull (h : s.Describes parts spec) (hfound : s.FoundIn parts opened n target)
    (hnull : Scope.allowsNull target = true) (ht : s.TypeFor spec.schemas opened (some n) t) :
    spec.AllowsNull t := by
  induction hfound generalizing t with
  | own hown htarget hopen => exact .itself (ht.nullable hown htarget hnull hopen)
  | component hmodel htarget hname hm henum hisRecord hfound ih =>
      obtain rfl := ht.eq_reference hmodel
      obtain ⟨name, model, hsame, hschema, hfor⟩ := h.schemas _ _ hm
      obtain rfl := Option.some.inj (hname.symm.trans hsame)
      obtain ⟨description, u, rfl, hu⟩ := hfor.synonym_of hfound.behind henum hisRecord
      refine ApiSpec.allowsNull_reference.mpr ⟨u, ?_, ih hnull hu⟩
      rw [ApiSpec.synonym?, hschema]
      rfl

end Scope

/-! ### The whole document -/

/--
**Null stays allowed**: a type of an interface allows null if the mapping that it was found in
does.  References that are written plainly, outside of the places of all components and of all
schemas, lead to the schema of the model which they name.
-/
theorem nullability_of_extract {d : CanonicalDocument} {spec : ApiSpec}
    (h : extract d = .ok spec) :
    ∃ s parts, prepare {} d = .ok (s, parts) ∧ s.Describes parts spec
      ∧ (∀ opened n target t, s.TypeFor spec.schemas opened (some n) t →
          s.FoundIn parts opened n target → Scope.allowsNull target = true → spec.AllowsNull t)
      ∧ (d.IsSorted → ∀ n target pointer model, n.ref? = some ("#" ++ pointer) →
          IsPlainPointer pointer → n.place ∉ parts.containers → s.modelOf? n = .ok (some model) →
            s.follow n = .ok target → ∃ name m, Fields.get? s.models name = some model
              ∧ Fields.get? parts.schemas name = some m ∧ s.follow m = .ok target) := by
  obtain ⟨s, parts, hprepare, hdescribes⟩ := describes_of_extract h
  refine ⟨s, parts, hprepare, hdescribes, ?_, ?_⟩
  · intro opened n target t ht hfound hnull
    exact hdescribes.allowsNull hfound hnull ht
  · intro hd n target pointer model href hplain hplace hmodel htarget
    exact follow_component hd hprepare href hplain hplace hmodel htarget

/-- A schema that is another name for a schema with two names. -/
def bookDocument : CanonicalDocument where
  info := [("title", .string "Books")]
  components := [("schemas", .mapping [
    ("Book", .mapping [("properties", .mapping [
      ("title", .mapping [("$ref", .string "#/components/schemas/Label")]),
      ("pages", .mapping [
        ("type", .string "array"),
        ("items", .mapping [("type", .string "integer"), ("nullable", .bool true)])])])]),
    ("Label", .mapping [("$ref", .string "#/components/schemas/Title")]),
    ("Title", .mapping [("type", .string "string"), ("nullable", .bool true)])])]

/-- The place of a schema of the whole document. -/
def schemaPlace (name : String) : Place := [.field name, .field "schemas", .field "components"]

/-- The schema of a title, which allows null. -/
def titleNode : Node where
  place := schemaPlace "Title"
  value := .mapping [("type", .string "string"), ("nullable", .bool true)]

/-- The property of a book that refers to the other name of titles. -/
def titleField : Node where
  place := .field "title" :: .field "properties" :: schemaPlace "Book"
  value := .mapping [("$ref", .string "#/components/schemas/Label")]

/-- The other name of titles. -/
def labelNode : Node where
  place := schemaPlace "Label"
  value := .mapping [("$ref", .string "#/components/schemas/Title")]

theorem nullability_bookDocument :
    ∃ spec s parts, extract bookDocument = .ok spec ∧ prepare {} bookDocument = .ok (s, parts)
      ∧ (spec.schema? "Book").map Schema.types
          = some [.reference "Label", .arrayOf (.primitive .integer true) false]
      ∧ s.FoundIn parts [] titleField titleNode ∧ spec.AllowsNull (.reference "Label") := by
  have htypes : (extract bookDocument).toOption.map (fun spec =>
        (spec.schema? "Book").map Schema.types)
      = some (some [.reference "Label", .arrayOf (.primitive .integer true) false]) := by
    decide +kernel
  have hseen : (prepare {} bookDocument).toOption.map (fun found => decide (
        found.1.modelOf? titleField = .ok (some "Label")
          ∧ found.1.follow titleField = .ok titleNode
          ∧ Fields.get? found.1.models "Label" = some "Label"
          ∧ Fields.get? found.2.schemas "Label" = some labelNode
          ∧ found.1.modelOf? labelNode = .ok (some "Title")
          ∧ found.1.follow labelNode = .ok titleNode
          ∧ Fields.get? found.1.models "Title" = some "Title"
          ∧ Fields.get? found.2.schemas "Title" = some titleNode
          ∧ found.1.modelOf? titleNode = .ok none ∧ found.1.follow titleNode = .ok titleNode
          ∧ found.1.isRecord titleNode.fields = .ok false))
      = some true := by decide +kernel
  obtain ⟨spec, hspec⟩ := except_exists_ok (x := extract bookDocument) (by decide +kernel)
  obtain ⟨s, parts, hprepare, -, hallows, -⟩ := nullability_of_extract hspec
  rw [hspec] at htypes
  rw [hprepare] at hseen
  obtain ⟨hfield, hfieldTarget, hlabelName, hlabelNode, hlabel, hlabelTarget, htitleName,
    htitleNode, htitle, htitleTarget, hisRecord⟩ := of_decide_eq_true (Option.some.inj hseen)
  have hfound : s.FoundIn parts [] titleField titleNode :=
    .component hfield hfieldTarget hlabelName hlabelNode rfl hisRecord
      (.component hlabel hlabelTarget htitleName htitleNode rfl hisRecord
        (.own htitle htitleTarget (by simp)))
  exact ⟨spec, s, parts, hspec, hprepare, Option.some.inj htypes, hfound,
    hallows [] titleField titleNode _ (.model hfield) hfound (by decide)⟩

/--
A folder whose list of folders lists itself, and which refers to the schema of folders and, by a
code for a blank, to a kind of folders.
-/
def folderDocument : CanonicalDocument where
  info := [("title", .string "Folders")]
  components := [("schemas", .mapping [
    ("Folder", .mapping [
      ("nullable", .bool true),
      ("properties", .mapping [
        ("folders", .mapping [
          ("nullable", .bool true),
          ("type", .string "array"),
          ("items", .mapping [("$ref", .string "#/components/schemas/Folder/properties/folders")])]),
        ("parent", .mapping [("$ref", .string "#/components/schemas/Folder")]),
        ("kind", .mapping [("$ref", .string "#/components/schemas/Folder%20Kind")])])]),
    ("Folder Kind", .mapping [("type", .string "string"), ("nullable", .bool true)]),
    ("Folder%20Kind", .mapping [("type", .string "string")])])]

/-- A node of a folder that is a reference. -/
def folderReference (steps : List String) (ref : String) : Node where
  place := steps.map Step.field ++ .field "properties" :: schemaPlace "Folder"
  value := .mapping [("$ref", .string ref)]

/-- The items of the folders in a folder. -/
def folderItems : Node :=
  folderReference ["items", "folders"] "#/components/schemas/Folder/properties/folders"

/-- The folder that a folder is in. -/
def folderParent : Node := folderReference ["parent"] "#/components/schemas/Folder"

/-- The kind of a folder. -/
def folderKind : Node := folderReference ["kind"] "#/components/schemas/Folder%20Kind"

/-- The place of the folders in a folder. -/
def foldersPlace : Place := .field "folders" :: .field "properties" :: schemaPlace "Folder"

theorem not_allowsNull_folderDocument :
    ∃ spec s parts, extract folderDocument = .ok spec ∧ prepare {} folderDocument = .ok (s, parts)
      ∧ (spec.schema? "Folder").map Schema.types
          = some [.arrayOf .any true, .reference "Folder", .reference "Folder20Kind"]
      ∧ (∀ n ∈ [folderItems, folderParent, folderKind],
          ∃ target, s.follow n = .ok target ∧ Scope.allowsNull target = true)
      ∧ s.TypeFor spec.schemas [foldersPlace] (some folderItems) .any
      ∧ s.TypeFor spec.schemas [] (some folderParent) (.reference "Folder")
      ∧ s.TypeFor spec.schemas [] (some folderKind) (.reference "Folder20Kind")
      ∧ ∀ t ∈ [TypeRef.any, .reference "Folder", .reference "Folder20Kind"], ¬ spec.AllowsNull t := by
  have htypes : (extract folderDocument).toOption.map (fun spec =>
        ((spec.schema? "Folder").map Schema.types, spec.synonym? "Folder",
          spec.synonym? "Folder20Kind"))
      = some (some [.arrayOf .any true, .reference "Folder", .reference "Folder20Kind"], none,
          some (.primitive .string false)) := by decide +kernel
  have hseen : (prepare {} folderDocument).toOption.map (fun found => decide (
        found.1.modelOf? folderItems = .ok none
          ∧ found.1.modelOf? folderParent = .ok (some "Folder")
          ∧ found.1.modelOf? folderKind = .ok (some "Folder20Kind")
          ∧ (found.1.follow folderItems).toOption.map Node.place = some foldersPlace
          ∧ ∀ n ∈ [folderItems, folderParent, folderKind],
            (found.1.follow n).toOption.map Scope.allowsNull = some true))
      = some true := by decide +kernel
  obtain ⟨spec, hspec⟩ := except_exists_ok (x := extract folderDocument) (by decide +kernel)
  obtain ⟨⟨s, parts⟩, hprepare⟩ := except_exists_ok (x := prepare {} folderDocument)
    (by decide +kernel)
  rw [hspec] at htypes
  rw [hprepare] at hseen
  obtain ⟨hitems, hparent, hkind, hplace, hnull⟩ := of_decide_eq_true (Option.some.inj hseen)
  simp only [Except.toOption, Option.map_some, Option.some.injEq, Prod.mk.injEq] at htypes
  obtain ⟨htypes, hfolder, hkindName⟩ := htypes
  have hbehind : ∀ n ∈ [folderItems, folderParent, folderKind],
      ∃ target, s.follow n = .ok target ∧ Scope.allowsNull target = true := by
    intro n hn
    have htrue := hnull n hn
    cases htarget : s.follow n with
    | error failure =>
        rw [htarget] at htrue
        cases htrue
    | ok target =>
        rw [htarget] at htrue
        exact ⟨target, rfl, Option.some.inj htrue⟩
  obtain ⟨target, htarget, -⟩ := hbehind folderItems (by simp)
  rw [htarget] at hplace
  have hopen : target.place ∈ [foldersPlace] := by
    rw [Option.some.inj hplace]
    exact List.mem_singleton_self _
  refine ⟨spec, s, parts, hspec, hprepare, htypes, hbehind,
    .closed hitems htarget (Or.inr hopen), .model hparent, .model hkind, ?_⟩
  have hany : ¬ spec.AllowsNull .any := fun h =>
    Bool.false_ne_true ((ApiSpec.allowsNull_primitive (by decide)).mp h)
  have hfolderType : ¬ spec.AllowsNull (.reference "Folder") := fun h => by
    obtain ⟨u, hu, -⟩ := ApiSpec.allowsNull_reference.mp h
    rw [hfolder] at hu
    cases hu
  have hkindType : ¬ spec.AllowsNull (.reference "Folder20Kind") := fun h => by
    obtain ⟨u, hu, hallows⟩ := ApiSpec.allowsNull_reference.mp h
    rw [hkindName] at hu
    cases hu
    exact Bool.false_ne_true ((ApiSpec.allowsNull_primitive (by decide)).mp hallows)
  simp [hany, hfolderType, hkindType]

end ApiClientGen.Extraction
