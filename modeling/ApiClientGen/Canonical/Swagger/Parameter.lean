/-
Parameters of version 2.

What version 2 calls a parameter may be the body of a request or a field of a form.
Bodies and forms become request bodies in canonical form, with one content for each
media type; all other parameters stay what they are.
-/
import ApiClientGen.Canonical.Document
import ApiClientGen.Canonical.Swagger.Schema

namespace ApiClientGen.Canonical.Swagger

open ApiClientGen.Document ApiClientGen.Text

/-- The texts among some items. -/
def texts (items : List Value) : List String := items.filterMap Value.asText?

/-- The media types that are used where a description names none. -/
def defaultMediaTypes : List String := ["application/json"]

/-- The first list of media types that is not empty, or the default. -/
def effectiveMediaTypes (own shared : List Value) : List String :=
  if !(texts own).isEmpty then texts own
  else if !(texts shared).isEmpty then texts shared
  else defaultMediaTypes

/-- One content for each media type. -/
def contentFor (mediaTypes : List String) (media : Fields Value) : Fields Value :=
  Fields.ofEntries (mediaTypes.map fun m => (m, .mapping media))

/-- How the items of an array are written, and whether each has a parameter of its own. -/
def collectionStyle? : String → Option (String × Bool)
  | "csv" => some ("form", false)
  | "ssv" => some ("spaceDelimited", false)
  | "pipes" => some ("pipeDelimited", false)
  | "multi" => some ("form", true)
  | _ => none

/-- The fields that say how an array parameter is written. -/
def styleFields (parameter : Fields Value) : Fields Value :=
  if Fields.get? parameter "type" = some (.string "array") then
    match (Fields.textAt? parameter "collectionFormat").bind collectionStyle? with
    | some (style, explode) =>
      let place := Fields.textAt? parameter "in"
      let plain := (place = some "path" ∨ place = some "header") ∧ style = "form"
      [("style", .string (if plain then "simple" else style)), ("explode", .bool explode)]
    | none => []
  else []

/-- A parameter that is neither a body nor a field of a form, in canonical form. -/
def convertParameter (parameter : Fields Value) : Fields Value :=
  match Fields.get? parameter "$ref" with
  | some ref => [("$ref", ref)]
  | none =>
    let fields := Fields.select parameter
      ["name", "in", "description", "required", "allowEmptyValue"]
    let fields := Fields.set fields "schema" (.mapping (schemaOf parameter))
    Fields.update (Fields.update fields (styleFields parameter)) (extensions parameter)

/-- Whether a parameter has to be given. -/
def isRequired (parameter : Fields Value) : Bool :=
  ((Fields.get? parameter "required").map Value.isSomething).getD false

/-- A body parameter as a request body. -/
def bodyOf (parameter : Fields Value) (consumes : List String) : Fields Value :=
  let schema := mapSchema convertSchema ((Fields.get? parameter "schema").getD (.mapping []))
  let body := [("content", .mapping (contentFor consumes [("schema", schema)]))]
  let body := Fields.setIfSome body "description" (Fields.get? parameter "description")
  let body := if isRequired parameter then Fields.set body "required" (.bool true) else body
  Fields.update body (extensions parameter)

/-- The fields of a form that have a name. -/
def namedFields (form : List (Fields Value)) : List (String × Fields Value) :=
  form.filterMap fun p => (Fields.textAt? p "name").map fun name => (name, p)

/-- The schema of one field of a form. -/
def formProperty (parameter : Fields Value) : Value :=
  .mapping (Fields.setIfSome (schemaOf parameter) "description"
    (Fields.get? parameter "description"))

/-- The media type of forms that carry files. -/
def multipart : String := "multipart/form-data"

/-- The media type of forms that carry no files. -/
def urlEncoded : String := "application/x-www-form-urlencoded"

/-- The fields of a form as a request body. -/
def formOf (form : List (Fields Value)) (consumes : List String) : Fields Value :=
  let named := namedFields form
  let properties := Fields.ofEntries (named.map fun p => (p.1, formProperty p.2))
  let required := (named.filter fun p => isRequired p.2).map fun p => Value.string p.1
  let hasFile := form.any fun p => Fields.get? p "type" = some (.string "file")
  let mediaType := if hasFile || consumes.contains multipart then multipart else urlEncoded
  let schema := [("type", .string "object"), ("properties", .mapping properties)]
    ++ (if required.isEmpty then [] else [("required", Value.list required)])
  [("content", .mapping [(mediaType, .mapping [("schema", .mapping schema)])])]
    ++ (if required.isEmpty then [] else [("required", .bool true)])

end ApiClientGen.Canonical.Swagger
