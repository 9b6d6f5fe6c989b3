/-
Kinds of places in a description.

What a value counts as depends on where it stands: a schema, a parameter, a table of responses
and so on.  The kind of a place follows from the kind of what it is a part of and from the key it
has there.  Some keys of a schema are those that version 3.1 writes differently; what is below
them is of no kind that anything may be said about.
-/
import ApiClientGen.Canonical.Schemas

namespace ApiClientGen.Canonical

/-- What stands at a place of a description. -/
inductive Kind where
  /-- Any value; it holds no schemas. -/
  | plain
  /-- A value that may be written in another way. -/
  | changing
  | schema
  /-- What a media type has. -/
  | media
  | parameter
  | response
  | requestBody
  | operation
  | pathItem
  | components
  /-- The whole description. -/
  | document
  /-- Things of one kind by name. -/
  | table (kind : Kind)
  /-- Things of one kind in a row. -/
  | list (kind : Kind)
  deriving DecidableEq, Repr

/-- The keys of a schema that are written in another way in version 3.1. -/
def changingKeys : List String :=
  ["type", "nullable", "anyOf", "const", "examples", "example", "exclusiveMinimum", "minimum",
    "exclusiveMaximum", "maximum"]

namespace Kind

/-- The kind of what stands under a key of a schema. -/
def underSchema (key : String) : Kind :=
  if key ∈ changingKeys then .changing
  else if key = propertiesKey then .table .schema
  else if key ∈ schemaKeys then .schema
  else if key ∈ schemaListKeys then .list .schema
  else .plain

/-- The kinds under the keys of other things; under any other key everything is plain. -/
def parts : Kind → Fields Kind
  | .media => [("schema", .schema)]
  | .parameter => [("schema", .schema), ("content", .table .media)]
  | .response => [("content", .table .media), ("headers", .table .parameter)]
  | .requestBody => [("content", .table .media)]
  | .operation => [("parameters", .list .parameter), ("requestBody", .requestBody),
      ("responses", .table .response)]
  | .pathItem => methods.map (fun m => (m, .operation)) ++ [("parameters", .list .parameter)]
  | .components => [("schemas", .table .schema), ("parameters", .table .parameter),
      ("responses", .table .response), ("requestBodies", .table .requestBody),
      ("headers", .table .parameter)]
  | .document => [("paths", .table .pathItem), ("components", .components)]
  | _ => []

/--
The kind of what stands under a key.  Version 3.1 keeps its webhooks as an extension, and what has
keys where a list is expected is of no use.
-/
def under : Kind → String → Kind
  | .schema, key => underSchema key
  | .table kind, _ => kind
  | .changing, _ => .changing
  | .list _, _ => .changing
  | .document, key =>
    if key = "x-webhooks" then .changing else (Fields.get? (parts .document) key).getD .plain
  | kind, key => (Fields.get? kind.parts key).getD .plain

/-- The kind of the items of a list. -/
def item : Kind → Kind
  | .list kind => kind
  | .changing => .changing
  | _ => .plain

/-- The kind of what a part of a pointer leads to. -/
def step : Kind → String → Kind
  | .list kind, _ => kind
  | kind, part => kind.under part

/-- The kind of what the parts of a pointer lead to, one after the other. -/
def along (kind : Kind) (parts : List String) : Kind := parts.foldl step kind

/-- What stands under a key is of a kind about which something may be said. -/
def Has (kind : Kind) (key : String) (of : Kind) : Prop := kind.under key = of ∧ of ≠ .changing

instance (kind : Kind) (key : String) (of : Kind) : Decidable (kind.Has key of) :=
  inferInstanceAs (Decidable (_ ∧ _))

theorem along_changing (parts : List String) : along .changing parts = .changing := by
  induction parts with
  | nil => rfl
  | cons part rest ih => exact ih

end Kind

end ApiClientGen.Canonical
