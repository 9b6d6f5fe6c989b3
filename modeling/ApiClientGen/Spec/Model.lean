/-
What an interface consists of.

This is all that a generator gets to know of an interface: named schemas, operations and
servers, free of the syntax of descriptions.  A type is a kind together with what the kind
needs: arrays and maps the type of their items, models a name.  References are gone but for
those in the default of a field, which is only looked at when it is written.
-/
import ApiClientGen.Reference.Resolve

namespace ApiClientGen.Spec

open ApiClientGen.Document ApiClientGen.Reference

/-- The kinds of types. -/
inductive TypeKind where
  | string
  | integer
  | number
  | boolean
  | date
  | datetime
  | binary
  | array
  | map
  | model
  | any
  deriving DecidableEq, Repr, Inhabited

/-- A type. -/
structure TypeRef where
  kind : TypeKind
  model : Option String := none
  item : Option TypeRef := none
  nullable : Bool := false
  deriving Repr

namespace TypeRef

instance : Inhabited TypeRef := ⟨{ kind := .any }⟩

/-- Decides equality of types. -/
def decEq : (a b : TypeRef) → Decidable (a = b)
  | ⟨k, m, none, n⟩, ⟨k', m', none, n'⟩ =>
    if h : k = k' ∧ m = m' ∧ n = n' then isTrue (by simp [h])
    else isFalse fun e => h (by cases e; simp)
  | ⟨k, m, some t, n⟩, ⟨k', m', some t', n'⟩ =>
    match decEq t t' with
    | isTrue ht =>
      if h : k = k' ∧ m = m' ∧ n = n' then isTrue (by simp [h, ht])
      else isFalse fun e => h (by cases e; simp)
    | isFalse ht => isFalse fun e => by cases e; exact ht rfl
  | ⟨_, _, none, _⟩, ⟨_, _, some _, _⟩ => isFalse fun e => by cases e
  | ⟨_, _, some _, _⟩, ⟨_, _, none, _⟩ => isFalse fun e => by cases e

instance : DecidableEq TypeRef := decEq

/-- A type without parts. -/
def primitive (kind : TypeKind) (nullable : Bool := false) : TypeRef := { kind, nullable }

/-- The type of any value. -/
def any : TypeRef := primitive .any

/-- The type with a name. -/
def reference (name : String) : TypeRef := { kind := .model, model := some name }

/-- The type of arrays of items. -/
def arrayOf (item : TypeRef) (nullable : Bool) : TypeRef := { kind := .array, item, nullable }

/-- The type of maps from texts to items. -/
def mapOf (item : TypeRef) (nullable : Bool) : TypeRef := { kind := .map, item, nullable }

/-- The type, and null as well if asked for. -/
def orNull (t : TypeRef) (nullable : Bool) : TypeRef :=
  if nullable then { t with nullable := true } else t

/-- The name of the model that a type is, or has as its innermost item. -/
def modelName? : TypeRef → Option String
  | ⟨.model, some name, item, _⟩ =>
    if name ≠ "" then some name
    else match item with
      | some t => t.modelName?
      | none => none
  | ⟨_, _, some t, _⟩ => t.modelName?
  | ⟨_, _, none, _⟩ => none

end TypeRef

/-- A field of a record. -/
structure RecordField where
  name : String
  type : TypeRef
  required : Bool := false
  description : Option String := none
  default : Deferred := .scalar .null

/-- A value of an enumeration. -/
inductive EnumValue where
  | text (s : String)
  | integer (i : Int)
  deriving DecidableEq, Repr

namespace EnumValue

/-- The value as text. -/
def asText : EnumValue → String
  | text s => s
  | integer i => toString i

end EnumValue

/-- What a schema says of its values. -/
inductive Shape where
  | record (fields : List RecordField) (additional : Bool)
  | enumeration (values : List EnumValue)
  | alias (type : TypeRef)

/-- A schema. -/
structure Schema where
  name : String
  description : Option String := none
  shape : Shape

/-- The types of the fields of a schema, or the type that it stands for. -/
def Schema.types (s : Schema) : List TypeRef :=
  match s.shape with
  | .record fields _ => fields.map (·.type)
  | .enumeration _ => []
  | .alias type => [type]

/-- Where a parameter stands in a request. -/
inductive Location where
  | path
  | query
  | header
  | cookie
  deriving DecidableEq, Repr

namespace Location

/-- The name of a location. -/
def name : Location → String
  | path => "path"
  | query => "query"
  | header => "header"
  | cookie => "cookie"

/-- The location with a name. -/
def ofName? (s : String) : Option Location :=
  [path, query, header, cookie].find? fun l => l.name = s

end Location

/-- A parameter of an operation. -/
structure Parameter where
  name : String
  location : Location
  type : TypeRef
  required : Bool := false
  description : Option String := none
  deriving Repr

/-- The body of a request. -/
structure RequestBody where
  mediaType : String
  type : TypeRef
  required : Bool := false
  description : Option String := none
  deriving Repr

/-- An operation. -/
structure Operation where
  name : String
  method : String
  path : String
  summary : Option String := none
  description : Option String := none
  tags : List String := []
  deprecated : Bool := false
  parameters : List Parameter := []
  body : Option RequestBody := none
  response : Option TypeRef := none
  deriving Repr

/-- The types of the parameters, the body and the response of an operation. -/
def Operation.types (o : Operation) : List TypeRef :=
  o.parameters.map (·.type) ++ (o.body.map (·.type)).toList ++ o.response.toList

/-- A server. -/
structure Server where
  url : String
  description : Option String := none
  deriving DecidableEq, Repr

/-- A way to prove one's identity. -/
structure SecurityScheme where
  name : String
  type : String
  location : Option String := none
  parameterName : Option String := none
  scheme : Option String := none
  deriving DecidableEq, Repr

/-- An interface. -/
structure ApiSpec where
  title : String := "API"
  version : String := ""
  description : Option String := none
  servers : List Server := []
  /-- The schemas, each under its name. -/
  schemas : Fields Schema := []
  operations : List Operation := []
  securitySchemes : List SecurityScheme := []

namespace ApiSpec

/-- The schema with a name. -/
def schema? (spec : ApiSpec) (name : String) : Option Schema := Fields.get? spec.schemas name

/-- The types of the fields, aliases, parameters, bodies and responses of an interface. -/
def types (spec : ApiSpec) : List TypeRef :=
  spec.schemas.flatMap (fun e => e.2.types) ++ spec.operations.flatMap Operation.types

end ApiSpec

end ApiClientGen.Spec
