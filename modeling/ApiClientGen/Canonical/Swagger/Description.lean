/-
Descriptions of version 2 in canonical form.

Definitions, parameters, responses and ways to prove one's identity become components;
parameters that are bodies or fields of forms become components of another kind than the
rest.  References change last, wherever they stand.
-/
import ApiClientGen.Canonical.References
import ApiClientGen.Canonical.Swagger.Operation

namespace ApiClientGen.Canonical.Swagger

open ApiClientGen.Document

/-! ### Security -/

/-- The canonical name of a flow. -/
def flowName : Option String → String
  | some "password" => "password"
  | some "application" => "clientCredentials"
  | some "accessCode" => "authorizationCode"
  | _ => "implicit"

/-- The flows of a security scheme that has one. -/
def flows (scheme : Fields Value) : Value :=
  let flow := Fields.update [("scopes", .mapping (Fields.fieldsAt scheme "scopes"))]
    (Fields.select scheme ["authorizationUrl", "tokenUrl"])
  .mapping [(flowName (Fields.textAt? scheme "flow"), .mapping flow)]

/-- The fields of a security scheme by its type. -/
def schemeFields (scheme : Fields Value) : Fields Value :=
  match Fields.textAt? scheme "type" with
  | some "basic" => [("type", .string "http"), ("scheme", .string "basic")]
  | some "apiKey" => Fields.select scheme ["type", "name", "in"]
  | some "oauth2" => [("type", .string "oauth2"), ("flows", flows scheme)]
  | _ => scheme

/-- A security scheme in canonical form. -/
def convertSecurityScheme : Value → Value
  | .mapping scheme =>
    let fields := Fields.setIfSome (schemeFields scheme) "description"
      (Fields.get? scheme "description")
    .mapping (Fields.update fields (extensions scheme))
  | v => v

/-! ### Servers -/

/-- A server by its address. -/
def server (url : String) : Value := .mapping [("url", .string url)]

/-- The servers that host, base path and schemes name. -/
def servers (spec : Fields Value) : List Value :=
  let basePath := (Fields.textAt? spec "basePath").getD ""
  match Fields.textAt? spec "host" with
  | none | some "" => if basePath = "" then [] else [server basePath]
  | some host =>
    let schemes := texts (Fields.itemsAt spec "schemes")
    (if schemes.isEmpty then ["https"] else schemes).map fun scheme =>
      server (scheme ++ "://" ++ host ++ basePath)

/-! ### Components and paths -/

/-- A field that is a mapping, unless it is empty. -/
def mappingField (key : String) (fields : Fields Value) : Fields Value :=
  if fields.isEmpty then [] else [(key, .mapping fields)]

/-- Whether a parameter of the whole description stands at a place. -/
def isAt (place : String) (parameter : Fields Value) : Bool :=
  Fields.get? parameter "in" = some (.string place)

/-- The request body for a parameter of the whole description that is one. -/
def sharedBody? (consumes : List String) (parameter : Fields Value) : Option (Fields Value) :=
  if isAt "body" parameter then some (bodyOf parameter consumes)
  else if isAt "formData" parameter then some (formOf [parameter] consumes)
  else none

/-- The components of a description. -/
def components (spec : Fields Value) : Fields Value :=
  let types (key : String) := effectiveMediaTypes (Fields.itemsAt spec key) []
  let parameters := (Fields.fieldsAt spec "parameters").map fun p => (p.1, p.2.asFields)
  let plain := parameters.filter fun p => !isAt "body" p.2 && !isAt "formData" p.2
  let bodies := parameters.filterMap fun p =>
    (sharedBody? (types "consumes") p.2).map fun b => (p.1, Value.mapping b)
  mappingField "schemas" (Fields.mapValues (mapSchema convertSchema) (Fields.fieldsAt spec "definitions"))
    ++ mappingField "parameters" (plain.map fun p => (p.1, .mapping (convertParameter p.2)))
    ++ mappingField "requestBodies" bodies
    ++ mappingField "responses"
      (Fields.mapValues (convertResponse (types "produces")) (Fields.fieldsAt spec "responses"))
    ++ mappingField "securitySchemes"
      (Fields.mapValues convertSecurityScheme (Fields.fieldsAt spec "securityDefinitions"))

/-- The operations of a path. -/
def convertPathItem (spec item : Fields Value) : Fields Value :=
  let operations := methods.filterMap fun m =>
    match Fields.get? item m with
    | some (.mapping operation) =>
      some (m, Value.mapping (convertOperation spec (Fields.itemsAt item "parameters") operation))
    | _ => none
  Fields.update operations (extensions item)

/-- The paths of a description. -/
def paths (spec : Fields Value) : Fields Value :=
  (Fields.fieldsAt spec "paths").filterMap fun p =>
    match p.2 with
    | .mapping item => some (p.1, .mapping (convertPathItem spec item))
    | _ => none

/-- The entries that are compared for the operations of a path. -/
def pathItemEntries (spec item : Fields Value) : List Entry :=
  methods.flatMap fun m =>
    match Fields.get? item m with
    | some (.mapping operation) =>
      writtenEntries (Fields.fieldsAt spec "parameters") (Fields.itemsAt item "parameters")
        (Fields.itemsAt operation "parameters")
    | _ => []

/-- The entries that are compared for the operations of a description. -/
def comparedEntries (spec : Fields Value) : List Entry :=
  (Fields.fieldsAt spec "paths").flatMap fun p =>
    match p.2 with
    | .mapping item => pathItemEntries spec item
    | _ => []

/-- The fields of a description with references as they were. -/
def convert (spec : Fields Value) : Fields Value :=
  let fields := [
    ("info", .mapping (Fields.fieldsAt spec "info")),
    ("servers", .list (servers spec)),
    ("paths", .mapping (paths spec)),
    ("components", .mapping (components spec)),
    ("security", .list (Fields.itemsAt spec "security")),
    ("tags", .list (Fields.itemsAt spec "tags"))]
  let fields := Fields.update fields (extensions spec)
  match Fields.get? spec "externalDocs" with
  | some (.mapping docs) => Fields.set fields "externalDocs" (.mapping docs)
  | _ => fields

end ApiClientGen.Canonical.Swagger

namespace ApiClientGen.Canonical

open ApiClientGen.Document

/-- The canonical form of a description of version 2. -/
def CanonicalDocument.ofSwagger (content : Fields Value) : CanonicalDocument :=
  .ofFields (canonicalRefFields (Swagger.convert content))

end ApiClientGen.Canonical
