/-
Schemas of version 2.

A schema of version 2 may have the type of a file, a flag for null that is an extension,
and a discriminator that is only a name.  Parameters and headers carry the keywords of
their schema among their own fields; the schema is made of the keywords alone.
-/
import ApiClientGen.Canonical.Schemas

namespace ApiClientGen.Canonical.Swagger

open ApiClientGen.Document

/-- A file as a text of binary format. -/
def convertFile (fields : Fields Value) : Fields Value :=
  if Fields.get? fields "type" = some (.string "file") then
    Fields.set (Fields.set fields "type" (.string "string")) "format" (.string "binary")
  else fields

/-- The flag for null under its canonical key. -/
def convertNullable (fields : Fields Value) : Fields Value :=
  match Fields.get? fields "x-nullable" with
  | some flag => Fields.set (Fields.erase fields "x-nullable") "nullable" (.bool flag.isSomething)
  | none => fields

/-- A discriminator that names its property. -/
def convertDiscriminator (fields : Fields Value) : Fields Value :=
  match Fields.get? fields "discriminator" with
  | some (.string name) =>
    Fields.set fields "discriminator" (.mapping [("propertyName", .string name)])
  | _ => fields

/-- The fields of a schema in canonical form. -/
def convertSchema (fields : Fields Value) : Fields Value :=
  convertDiscriminator (convertNullable (convertFile fields))

/-- The keywords of a schema that stand among the fields of a parameter. -/
def keywords : List String := [
  "type", "format", "items", "enum", "default", "minimum", "maximum", "exclusiveMinimum",
  "exclusiveMaximum", "minLength", "maxLength", "pattern", "minItems", "maxItems",
  "uniqueItems", "multipleOf"]

mutual

/-- The schema that a parameter carries among its fields. -/
def carriedSchema : Value → Value
  | .mapping fields => .mapping (convertSchema (Fields.select (carriedItems fields) keywords))
  | v => v

/-- The fields of a parameter with the schema that its items carry in place of the items. -/
def carriedItems : List (String × Value) → List (String × Value)
  | [] => []
  | (key, v) :: rest =>
    (key, if key = "items" then mapSchema convertSchema (carriedSchema v) else v)
      :: carriedItems rest

end

/-- The schema that the fields of a parameter carry. -/
def schemaOf (fields : Fields Value) : Fields Value := (carriedSchema (.mapping fields)).asFields

end ApiClientGen.Canonical.Swagger
