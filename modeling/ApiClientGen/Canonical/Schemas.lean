/-
The schemas of a description.

Schemas stand at fixed places: in parameters, request bodies, responses and headers, of
operations and among the components, and inside of other schemas.  A change of
schemas is a function on the fields of one schema; here it is applied at all these
places, to the inner schemas before the outer ones.  Whatever is of another kind than
expected stays as it is.
-/
import ApiClientGen.Document.Value

namespace ApiClientGen.Canonical

open ApiClientGen.Document

/-- The methods of operations, in the order in which they are looked at. -/
def methods : List String := ["get", "put", "post", "delete", "options", "head", "patch", "trace"]

/-! ### Schemas inside of schemas -/

/-- The key of a schema's properties. -/
def propertiesKey : String := "properties"

/-- The keys under which a schema has one inner schema. -/
def schemaKeys : List String := ["items", "additionalProperties", "not"]

/-- The keys under which a schema has a list of inner schemas. -/
def schemaListKeys : List String := ["allOf", "anyOf", "oneOf"]

mutual

/-- A schema with a change applied to it and to all schemas inside. -/
def mapSchema (change : Fields Value → Fields Value) : Value → Value
  | .mapping fields => .mapping (change (mapInner change fields))
  | v => v

/-- The fields of a schema with the inner schemas changed. -/
def mapInner (change : Fields Value → Fields Value) :
    List (String × Value) → List (String × Value)
  | [] => []
  | (key, v) :: rest => (key, mapUnder change key v) :: mapInner change rest

/-- What stands under a key of a schema, with the schemas in it changed. -/
def mapUnder (change : Fields Value → Fields Value) (key : String) : Value → Value
  | .mapping fields =>
    if key = propertiesKey then .mapping (mapProperties change fields)
    else if schemaKeys.contains key then .mapping (change (mapInner change fields))
    else .mapping fields
  | .list vs => if schemaListKeys.contains key then .list (mapSchemas change vs) else .list vs
  | v => v

/-- Properties with the schema of each changed. -/
def mapProperties (change : Fields Value → Fields Value) :
    List (String × Value) → List (String × Value)
  | [] => []
  | (name, v) :: rest => (name, mapSchema change v) :: mapProperties change rest

/-- A list of schemas, each changed. -/
def mapSchemas (change : Fields Value → Fields Value) : List Value → List Value
  | [] => []
  | v :: rest => mapSchema change v :: mapSchemas change rest

end

/-! ### Schemas in a description -/

/-- A change of every value of a mapping. -/
def eachValue (f : Value → Value) : Value → Value
  | .mapping fields => .mapping (Fields.mapValues f fields)
  | v => v

/-- A change of every item of a list. -/
def eachItem (f : Value → Value) : Value → Value
  | .list vs => .list (vs.map f)
  | v => v

/-- A change of the fields of a mapping. -/
def changed (f : Fields Value → Fields Value) : Value → Value
  | .mapping fields => .mapping (f fields)
  | v => v

section

variable (change : Fields Value → Fields Value)

/-- Contents by media type, with the schema of each changed. -/
def mapContent : Value → Value :=
  eachValue (changed fun media => Fields.modify media "schema" (mapSchema change))

/-- A parameter or a header with its schemas changed. -/
def mapParameter : Value → Value :=
  changed fun fields =>
    Fields.modify (Fields.modify fields "schema" (mapSchema change)) "content" (mapContent change)

/-- Headers by name, each with its schemas changed. -/
def mapHeaders : Value → Value := eachValue (mapParameter change)

/-- A response with its schemas changed. -/
def mapResponse : Value → Value :=
  changed fun fields =>
    Fields.modify (Fields.modify fields "content" (mapContent change)) "headers" (mapHeaders change)

/-- A request body with its schemas changed. -/
def mapRequestBody : Value → Value :=
  changed fun fields => Fields.modify fields "content" (mapContent change)

/-- An operation with its schemas changed. -/
def mapOperation : Value → Value :=
  changed fun fields =>
    let fields := Fields.modify fields "parameters" (eachItem (mapParameter change))
    let fields := Fields.modify fields "requestBody" (mapRequestBody change)
    Fields.modify fields "responses" (eachValue (mapResponse change))

/-- The operations and parameters of a path with their schemas changed. -/
def mapPathItem : Value → Value :=
  changed fun fields =>
    let fields := methods.foldl (fun acc m => Fields.modify acc m (mapOperation change)) fields
    Fields.modify fields "parameters" (eachItem (mapParameter change))

/-- Components with their schemas changed. -/
def mapComponents : Value → Value :=
  changed fun fields =>
    let fields := Fields.modify fields "schemas" (eachValue (mapSchema change))
    let fields := Fields.modify fields "parameters" (eachValue (mapParameter change))
    let fields := Fields.modify fields "responses" (eachValue (mapResponse change))
    let fields := Fields.modify fields "requestBodies" (eachValue (mapRequestBody change))
    Fields.modify fields "headers" (mapHeaders change)

/-- The fields of a description with all schemas changed. -/
def mapDocument (fields : Fields Value) : Fields Value :=
  let fields := Fields.modify fields "paths" (eachValue (mapPathItem change))
  Fields.modify fields "components" (mapComponents change)

end

end ApiClientGen.Canonical
