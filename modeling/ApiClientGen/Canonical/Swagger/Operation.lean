/-
Operations of version 2.

An operation takes over the parameters of its path, unless it has one of the same name at
the same place itself.  References to parameters of the whole description are followed to
see what they are, and stay references; one that leads nowhere is left out.  Names and
places are compared as texts, and not every value has one.
-/
import ApiClientGen.Canonical.Swagger.Parameter
import ApiClientGen.Document.Display

namespace ApiClientGen.Canonical.Swagger

open ApiClientGen.Document ApiClientGen.Text

/-! ### Responses -/

/-- A header in canonical form. -/
def convertHeader (header : Value) : Value :=
  let fields := header.asFields
  .mapping (Fields.setIfSome [("schema", .mapping (schemaOf fields))] "description"
    (Fields.get? fields "description"))

/-- The content of a response, with an example written into the one of its media type. -/
def withExample (content : Fields Value) (mediaType : String) (example? : Value) : Fields Value :=
  let media := Fields.fieldsAt content mediaType
  Fields.set content mediaType (.mapping (Fields.set media "example" example?))

/-- A response in canonical form. -/
def convertResponse (produces : List String) : Value → Value
  | .mapping response =>
    match Fields.get? response "$ref" with
    | some ref => .mapping [("$ref", ref)]
    | none =>
      let content :=
        match Fields.get? response "schema" with
        | some (.mapping schema) =>
          contentFor produces [("schema", mapSchema convertSchema (.mapping schema))]
        | _ => []
      let examples := Fields.fieldsAt response "examples"
      let content := examples.foldl (fun acc e => withExample acc e.1 e.2) content
      let headers := Fields.fieldsAt response "headers"
      let fields :=
        [("description", (Fields.get? response "description").getD (.string ""))]
          ++ (if content.isEmpty then [] else [("content", .mapping content)])
          ++ (if headers.isEmpty then []
            else [("headers", .mapping (Fields.mapValues convertHeader headers))])
      .mapping (Fields.update fields (extensions response))
  | v => v

/-! ### Parameters of an operation -/

/-- What references to parameters of the whole description begin with. -/
def parameterRefStart : String := "#/parameters/"

/-- An entry of a list of parameters, and the parameter that it stands for. -/
structure Entry where
  written : Fields Value
  resolved : Fields Value
  deriving DecidableEq, Repr

namespace Entry

/-- The entry that a value is; none if there is no parameter behind it. -/
def ofValue? (shared : Fields Value) : Value → Option Entry
  | .mapping written =>
    match (Fields.textAt? written "$ref").bind (textAfter? parameterRefStart) with
    | some name =>
      match Fields.get? shared name with
      | some (.mapping target) => some ⟨written, target⟩
      | _ => none
    | none => some ⟨written, written⟩
  | _ => none

/-- The text of a value that may be missing. -/
def textOf (v : Option Value) : String := (v.getD .null).text

/-- Name and place, by which a parameter replaces another one. -/
def key (e : Entry) : String × String :=
  (textOf (Fields.get? e.resolved "name"), textOf (Fields.get? e.resolved "in"))

/-- Whether name and place have texts. -/
def hasKey (e : Entry) : Bool :=
  ["name", "in"].all fun key => !((Fields.get? e.resolved key).getD .null).hasLongInteger

/-- Whether the parameter stands at a place. -/
def isAt (place : String) (e : Entry) : Bool :=
  Fields.get? e.resolved "in" = some (.string place)

/-- Whether the parameter is neither a body nor a field of a form. -/
def isPlain (e : Entry) : Bool := !e.isAt "body" && !e.isAt "formData"

end Entry

/-- The entries that the parameters of a path and of its operation are. -/
def writtenEntries (shared : Fields Value) (ofPath ofOperation : List Value) : List Entry :=
  (ofPath ++ ofOperation).filterMap (Entry.ofValue? shared)

/-- Adds an entry; it takes the place of the one with its key. -/
def addEntry (entries : List Entry) (e : Entry) : List Entry :=
  match entries with
  | [] => [e]
  | first :: rest => if first.key = e.key then e :: rest else first :: addEntry rest e

/-- The entries that count for an operation, each key once. -/
def effectiveEntries (shared : Fields Value) (ofPath ofOperation : List Value) : List Entry :=
  (writtenEntries shared ofPath ofOperation).foldl addEntry []

/-- The request body for an entry that is one. -/
def bodyOfEntry (consumes : List String) (e : Entry) : Fields Value :=
  match Fields.textAt? e.written "$ref" with
  | some ref =>
    let name := String.ofList (ref.toList.drop parameterRefStart.length)
    [("$ref", .string ("#/components/requestBodies/" ++ name))]
  | none => bodyOf e.resolved consumes

/-- The request body of an operation: its form if it has one, else its last body. -/
def requestBody? (consumes : List String) (entries : List Entry) : Option (Fields Value) :=
  let form := (entries.filter (Entry.isAt "formData")).map Entry.resolved
  if form.isEmpty then
    (entries.filter (Entry.isAt "body")).getLast?.map (bodyOfEntry consumes)
  else some (formOf form consumes)

/-- An operation in canonical form, inside of a description. -/
def convertOperation (spec : Fields Value) (ofPath : List Value) (operation : Fields Value) :
    Fields Value :=
  let types (key : String) :=
    effectiveMediaTypes (Fields.itemsAt operation key) (Fields.itemsAt spec key)
  let entries := effectiveEntries (Fields.fieldsAt spec "parameters") ofPath
    (Fields.itemsAt operation "parameters")
  let parameters := (entries.filter Entry.isPlain).map fun e =>
    Value.mapping (convertParameter e.written)
  let responses := Fields.mapValues (convertResponse (types "produces"))
    (Fields.fieldsAt operation "responses")
  let fields := Fields.select operation
    ["tags", "summary", "description", "externalDocs", "operationId", "deprecated", "security"]
  let fields := fields
    ++ ((requestBody? (types "consumes") entries).map fun b => ("requestBody", Value.mapping b)).toList
    ++ (if parameters.isEmpty then [] else [("parameters", .list parameters)])
    ++ [("responses", .mapping responses)]
  Fields.update fields (extensions operation)

end ApiClientGen.Canonical.Swagger
