/-
Schemas as types and models.

A schema becomes a type.  What needs a name of its own, a record or an enumeration, becomes
a model, named after the place where it came up.  A reference to a schema of the whole
document is the type of its model, without a look at the schema.

A schema that comes up while its own type is being found stands for any value.  So every
schema is open at most once, and the mappings in the document bound the nesting.  In the
same way no part of a combined schema is looked at twice.  One step of both searches is
written out with the calls inside of it left open.
-/
import ApiClientGen.Extraction.Scope

namespace ApiClientGen.Extraction

open ApiClientGen.Document ApiClientGen.Naming ApiClientGen.Reference ApiClientGen.Spec

namespace Scope

/-! ### Enumerations -/

/-- A value of an enumeration; whatever is neither text nor integer becomes text. -/
def enumValueOf (v : Value) : EnumValue :=
  match v with
  | .string t => .text t
  | .int i => .integer i
  | other => .text other.text

/-- A value that an enumeration lists; unless it is an integer it is shown, and has to have a text. -/
def listedValue (s : Scope) (n : Node) : Except Failure Value := do
  let v ← s.whole n
  match v with
  | .int _ => return v
  | v =>
    let _ ← v.shown.mapError Failure.text
    return v

/-- The model of an enumeration. -/
def enumeration (s : Scope) (name : String) (fields : Fields Node) : Except Failure Schema := do
  let items ← s.itemsOf (Fields.get? fields "enum")
  let values ← (items.filter fun n => !isNothing (some n)).mapM s.listedValue
  return {
    name
    shape := .enumeration (values.map enumValueOf)
    description := ← s.textOf (Fields.get? fields "description") }

/-- Whether a schema lists values, all of them texts, null apart. -/
def isTextEnumeration (s : Scope) (fields : Fields Node) : Except Failure Bool := do
  let items := (← s.itemsOf (Fields.get? fields "enum")).filter fun n => !isNothing (some n)
  if items.isEmpty then return false
  items.allM fun n => return (← s.anyTextOf (some n)).isSome

/-! ### Records -/

/-- Whether a schema is a record: it has properties or combines several schemas. -/
def isRecord (s : Scope) (fields : Fields Node) : Except Failure Bool := do
  let properties := Fields.get? fields "properties"
  if (← s.isMapping properties) && (← s.isSomething properties) then return true
  let parts := (← s.itemsOf (Fields.get? fields "allOf")).length
  if 1 < parts then return true
  if parts = 1 then s.isMapping properties else return false

/-- The properties of a record, and the names of those that are required. -/
structure Properties where
  schemas : Fields Node := []
  required : List String := []

/-- The properties together with more of them, which replace those of the same name. -/
def Properties.join (found more : Properties) : Properties where
  schemas := Fields.update found.schemas more.schemas
  required := found.required ++ more.required

/-- A walk through schemas, which keeps the places of those looked at, whatever comes of it. -/
abbrev Walk := ExceptT Failure (StateM (List Place))

/--
The properties of a schema and of all the schemas it combines, where `answer` finds those of
a part; a schema that was looked at before adds nothing.
-/
def propertiesStep (s : Scope) (answer : Node → Walk Properties) (n : Node) : Walk Properties := do
  let target ← s.follow n
  if !target.value.isMapping || (← get).contains n.place then return {}
  modify (n.place :: ·)
  let parts ← s.itemsOf (target.field? "allOf")
  let inherited ← parts.foldlM (fun found part => return Properties.join found (← answer part)) {}
  let own ← s.fieldsOf (target.field? "properties")
  let required ← s.textsOf (target.field? "required")
  return inherited.join { schemas := own, required }

/-- The properties of a schema and of all the schemas it combines, to a number of levels. -/
def propertiesWithin (s : Scope) : Nat → Node → Walk Properties
  | 0, _ => return {}
  | levels + 1, n => s.propertiesStep (s.propertiesWithin levels) n

/-- The properties of a schema and of all the schemas it combines. -/
def properties (s : Scope) (n : Node) : Except Failure Properties :=
  ((s.propertiesWithin s.levels n).run.run []).1

section

/- How the type of a schema is found inside of another one. -/
variable (typeOf : Option Node → String → Extract TypeRef)

/-- A field of a record. -/
def recordField (s : Scope) (model name : String) (schema : Node) (required : List String) :
    Extract RecordField := do
  let fields ← s.fieldsOf (some schema)
  let type ← typeOf (some schema) (model ++ pascalCase name)
  return {
    name
    type
    required := required.contains name
    description := ← s.textOf (Fields.get? fields "description")
    default := ((Fields.get? fields "default").map s.deferred).getD (.scalar .null) }

/-- The model of a record. -/
def record (s : Scope) (name : String) (schema : Node) (fields : Fields Node) : Extract Schema := do
  let found ← s.properties schema
  let recordFields ← found.schemas.mapM fun e => recordField typeOf s name e.1 e.2 found.required
  let description ← s.textOf (Fields.get? fields "description")
  let additional := Fields.get? fields "additionalProperties"
  let isOpen ← if isTrue additional then pure true else liftM (s.isMapping additional)
  return { name, description, shape := .record recordFields isOpen }

/-- Makes a model of its own, and gives its type. -/
def hoist (hint : String) (model : String → Extract Schema) : Extract TypeRef := do
  let name ← takeModelName hint
  keep name (← model name)
  return .reference name

/-! ### Types -/

/-- The kind of a text by its format. -/
def textKind : Option String → TypeKind
  | some "date" => .date
  | some "date-time" => .datetime
  | some "binary" => .binary
  | _ => .string

/-- The kind of a type without parts by its name. -/
def plainKind? : String → Option TypeKind
  | "integer" => some .integer
  | "number" => some .number
  | "boolean" => some .boolean
  | _ => none

/-- The name of the only type of a schema, and whether null is among the types. -/
def namedType (s : Scope) (fields : Fields Node) : Except Failure (Option String × Bool) := do
  match ← s.behind (Fields.get? fields "type") with
  | none => return (none, false)
  | some type =>
    match type.value with
    | .list _ =>
      let proper ← type.items.filterM fun t => return (← s.anyTextOf (some t)) != some "null"
      let name ← if proper.length = 1 then s.anyTextOf proper.head? else pure none
      return (name, proper.length < type.items.length)
    | v => return (v.asText?, false)

/-- The type that a schema names. -/
def namedTypeOf (s : Scope) (fields : Fields Node) (hint : String) (nullable : Bool) :
    Extract TypeRef := do
  let (name, hasNull) ← s.namedType fields
  let nullable := nullable || hasNull
  let additional := Fields.get? fields "additionalProperties"
  if name = some "string" then
    return .primitive (textKind (← s.anyTextOf (Fields.get? fields "format"))) nullable
  if let some kind := name.bind plainKind? then
    return .primitive kind nullable
  if name = some "array" then
    return .arrayOf (← typeOf (Fields.get? fields "items") (hint ++ "Item")) nullable
  if name = some "object" || additional.isSome then
    let value ←
      if ← s.isMapping additional then typeOf additional (hint ++ "Value") else pure .any
    return .mapOf value nullable
  return .primitive .any nullable

/-- The type of a schema that stands for itself: a record, or what it names. -/
def ownTypeOf (s : Scope) (schema target : Node) (hint : String) (nullable : Bool) :
    Extract TypeRef := do
  if ← s.isRecord target.fields then
    return (← hoist hint fun name => record typeOf s name schema target.fields).orNull nullable
  namedTypeOf typeOf s target.fields hint nullable

/-- The type of a schema that is a mapping. -/
def typeOfMapping (s : Scope) (schema target : Node) (hint : String) : Extract TypeRef := do
  let fields := target.fields
  let nullable := isTrue (Fields.get? fields "nullable")
  if ← s.isTextEnumeration fields then
    return (← hoist hint fun name => s.enumeration name fields).orNull nullable
  let parts ← s.itemsOf (Fields.get? fields "allOf")
  if parts.length = 1 then
    if !(← s.isSomething (Fields.get? fields "properties")) then
      return (← typeOf parts.head? hint).orNull nullable
  ownTypeOf typeOf s schema target hint nullable

end

/-- A call for the type of a schema. -/
structure Call where
  /-- The places of the schemas whose types are being found. -/
  opened : List Place := []
  schema : Option Node
  /-- What models that come up are named after. -/
  hint : String

/--
The type of a schema, where `answer` takes the calls for schemas inside of it; a missing
schema allows any value.
-/
def typeStep (s : Scope) (answer : Call → Extract TypeRef) (c : Call) : Extract TypeRef :=
  match c.schema with
  | none => return .any
  | some schema => do
    if let some model ← s.modelOf? schema then return .reference model
    let target ← s.follow schema
    if !target.value.isMapping || c.opened.contains target.place then return .any
    typeOfMapping (fun part hint => answer ⟨target.place :: c.opened, part, hint⟩) s schema target
      c.hint

/-- The type of a schema, to a number of levels. -/
def typeWithin (s : Scope) : Nat → Call → Extract TypeRef
  | 0, _ => return .any
  | levels + 1, c => s.typeStep (s.typeWithin levels) c

/-- The type of a schema; models that come up are named after the hint. -/
def typeOf (s : Scope) (schema : Option Node) (hint : String) : Extract TypeRef :=
  s.typeWithin s.levels { schema, hint }

/-- The model for a schema of the whole document. -/
def component (s : Scope) (name : String) (schema : Node) : Extract Schema := do
  if let some model ← s.modelOf? schema then
    return { name, shape := .alias (.reference model) }
  let fields ← s.fieldsOf (some schema)
  if (Fields.get? fields "enum").isSome then
    s.enumeration name fields
  else if ← s.isRecord fields then
    record s.typeOf s name schema fields
  else
    let type ← s.typeOf (some schema) (name ++ "Item")
    return {
      name
      shape := .alias type
      description := ← s.textOf (Fields.get? fields "description") }

end Scope

end ApiClientGen.Extraction
