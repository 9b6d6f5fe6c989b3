/-
Operations.

An operation is named after its identifier, or else after its method and path.  It takes
over the parameters of its path; one of the same name at the same place replaces an earlier
one where that stands.  Of several contents one is taken: JSON if there is one, else a content
in a format that builds on JSON, else a form, else the first.  Of several responses the first
successful one that has a schema is taken.
-/
import ApiClientGen.Canonical.Schemas
import ApiClientGen.Extraction.Schemas
import ApiClientGen.Text.Layout
import ApiClientGen.Text.Split

namespace ApiClientGen.Extraction

open ApiClientGen.Document ApiClientGen.Naming ApiClientGen.Reference ApiClientGen.Spec
open ApiClientGen.Text

/-! ### Media types -/

/-- A media type without its parameters. -/
def bareMediaType (mediaType : String) : String :=
  String.ofList (trim (mediaType.toList.takeWhile (· != ';')))

/-- The media type that is taken, in the order of preference. -/
def pickMediaType (mediaTypes : List String) : Option String :=
  (mediaTypes.find? fun m => bareMediaType m == "application/json")
  <|> (mediaTypes.find? fun m => endsIn (bareMediaType m) "+json")
  <|> (mediaTypes.find? fun m => beginsWith m "multipart/form-data")
  <|> (mediaTypes.find? fun m => beginsWith m "application/x-www-form-urlencoded")
  <|> mediaTypes.head?

/-! ### Names -/

/-- The name between braces that a segment of a path consists of. -/
def placeholderName? (segment : List Char) : Option (List Char) :=
  match segment with
  | '{' :: rest =>
    let name := rest.dropLast
    if rest.getLast? = some '}' && !name.isEmpty && !name.contains '\n' then some name else none
  | _ => none

/-- What a segment of a path adds to the name of an operation. -/
def segmentWords (segment : List Char) : Option String :=
  match placeholderName? segment with
  | some name => some ("by_" ++ String.ofList name)
  | none => if segment.isEmpty then none else some (String.ofList segment)

/-- The name of an operation without an identifier. -/
def nameOfRoute (path method : String) : String :=
  let segments := splitOn '/' (trimBy (· == '/') path.toList)
  snakeCase (String.intercalate "_" (method :: segments.filterMap segmentWords))

/-- The name of an operation, before it is made unique. -/
def operationName (path method : String) (identifier : Option String) : String :=
  let name :=
    match identifier with
    | some text => snakeCase text
    | none => nameOfRoute path method
  if name = "" then method else name

namespace Scope

variable (s : Scope)

/-! ### Parameters -/

/-- The schema of the content that is taken. -/
def contentSchema (content : Option Node) : Except Failure (Option Node) := do
  let media ← s.fieldsOf content
  match pickMediaType (Fields.keys media) with
  | none => return none
  | some mediaType =>
    if mediaType = "" then return none
    return Fields.get? (← s.fieldsOf (Fields.get? media mediaType)) "schema"

/-- The schema of a parameter: its own, or else that of its content. -/
def parameterSchema (fields : Fields Node) : Except Failure (Option Node) :=
  let own := Fields.get? fields "schema"
  if isNothing own then s.contentSchema (Fields.get? fields "content") else return own

/-- The type of a schema; one that counts as nothing allows any value. -/
def typeOfSomething (schema : Option Node) (hint : String) : Extract TypeRef := do
  if ← s.isSomething schema then s.typeOf schema hint else return .any

/-- A parameter of an operation; none if it has no name or stands at no known place. -/
def parameter? (hint : String) (n : Node) : Extract (Option Parameter) := do
  let fields ← s.fieldsOf (some n)
  let name ← s.textOf (Fields.get? fields "name")
  let place ← s.anyTextOf (Fields.get? fields "in")
  match place.bind Location.ofName?, name with
  | some location, some name =>
    let type ← s.typeOfSomething (← s.parameterSchema fields) (hint ++ pascalCase name)
    return some {
      name
      location
      type
      required := location = .path || isTrue (Fields.get? fields "required")
      description := ← s.textOf (Fields.get? fields "description") }
  | _, _ => return none

/-- Adds a parameter; it takes the place of the one with its name and location. -/
def addParameter (parameters : List Parameter) (p : Parameter) : List Parameter :=
  match parameters with
  | [] => [p]
  | first :: rest =>
    if first.name = p.name ∧ first.location = p.location then p :: rest
    else first :: addParameter rest p

/-- The parameters of an operation. -/
def parameters (hint : String) (nodes : List Node) : Extract (List Parameter) := do
  return ((← nodes.mapM (s.parameter? hint)).filterMap id).foldl addParameter []

/-! ### Bodies and responses -/

/-- The body of a request, if there is a content for it. -/
def body? (hint : String) (n : Option Node) : Extract (Option RequestBody) := do
  let fields ← s.fieldsOf n
  let media ← s.fieldsOf (Fields.get? fields "content")
  match pickMediaType (Fields.keys media) with
  | none => return none
  | some mediaType =>
    let schema := Fields.get? (← s.fieldsOf (Fields.get? media mediaType)) "schema"
    let type ← s.typeOf schema (hint ++ "Request")
    return some {
      mediaType
      type
      required := isTrue (Fields.get? fields "required")
      description := ← s.textOf (Fields.get? fields "description") }

/-- The codes of success among the keys of responses, in rising order. -/
def successCodes (responses : Fields Node) : List String :=
  ((Fields.keys responses).filter fun code => beginsWith code "2").mergeSort (· ≤ ·)

/-- The schema of the content that is taken of a response. -/
def responseSchema? (responses : Fields Node) (code : String) : Except Failure (Option Node) := do
  let response ← s.fieldsOf (Fields.get? responses code)
  let media ← s.fieldsOf (Fields.get? response "content")
  match pickMediaType (Fields.keys media) with
  | none => return none
  | some mediaType =>
    let schema := Fields.get? (← s.fieldsOf (Fields.get? media mediaType)) "schema"
    return if isNothing schema then none else schema

/-- The type of the first successful response that has a schema. -/
def response? (hint : String) (n : Option Node) : Extract (Option TypeRef) := do
  let responses ← s.fieldsOf n
  match ← liftM ((successCodes responses).findSomeM? (s.responseSchema? responses)) with
  | none => return none
  | some schema => return some (← s.typeOf (some schema) (hint ++ "Response"))

/-! ### Operations -/

/-- An operation of a path. -/
def operation (path method : String) (fields : Fields Node) (ofPath : List Node) :
    Extract Operation := do
  let identifier ← s.textOf (Fields.get? fields "operationId")
  let name ← takeOperationName (operationName path method identifier)
  let hint := pascalCase name
  return {
    name
    method := method.toUpper
    path
    summary := ← s.textOf (Fields.get? fields "summary")
    description := ← s.textOf (Fields.get? fields "description")
    tags := ← s.textsOf (Fields.get? fields "tags")
    deprecated := isTrue (Fields.get? fields "deprecated")
    parameters := ← s.parameters hint (ofPath ++ (← s.itemsOf (Fields.get? fields "parameters")))
    body := ← s.body? hint (Fields.get? fields "requestBody")
    response := ← s.response? hint (Fields.get? fields "responses") }

/-- The operation of a path for a method, if there is one. -/
def methodOperation? (path : String) (fields : Fields Node) (ofPath : List Node) (method : String) :
    Extract (Option Operation) := do
  let node := Fields.get? fields method
  if ← s.isMapping node then
    return some (← s.operation path method (← s.fieldsOf node) ofPath)
  else return none

/-- The operations of a path, in the order of the methods. -/
def pathOperations (path : String) (item : Node) : Extract (List Operation) := do
  let fields ← s.fieldsOf (some item)
  let ofPath ← s.itemsOf (Fields.get? fields "parameters")
  return (← Canonical.methods.mapM (s.methodOperation? path fields ofPath)).filterMap id

/-- The operations of all paths. -/
def operations (paths : Fields Node) : Extract (List Operation) := do
  return (← paths.mapM fun p => s.pathOperations p.1 p.2).flatten

end Scope

end ApiClientGen.Extraction
