/-
The client class.

Every operation becomes a method, and every key in a header gets a method that sets it.
Parameters that have to be given come first; the others can only be given by name.  A name
that is used twice in one method is marked with the place of the parameter.
-/
import ApiClientGen.Client.Names
import ApiClientGen.Client.Types
import ApiClientGen.Code.Model
import ApiClientGen.Settings.Generation

namespace ApiClientGen.Client

open ApiClientGen.Code ApiClientGen.Naming ApiClientGen.Settings ApiClientGen.Spec
open ApiClientGen.Text

/-! ### Arguments -/

/-- An argument of a method; the body of a request stands at no place. -/
structure Argument where
  identifier : String
  location : Option Location
  name : String
  type : TypeRef
  required : Bool
  deriving Repr

/-- The identifier of a parameter beside the ones that are used. -/
def argumentIdentifier (used : List String) (p : Spec.Parameter) : String :=
  let plain := identifier p.name
  if used.contains plain then plain ++ "_" ++ p.location.name else plain

/-- The arguments for parameters beside the identifiers that are used. -/
def parameterArguments (used : List String) : List Spec.Parameter → List Argument
  | [] => []
  | p :: rest =>
    let identifier := argumentIdentifier used p
    ⟨identifier, some p.location, p.name, p.type, p.required⟩
      :: parameterArguments (identifier :: used) rest

/-- The argument for the body of a request. -/
def bodyArgument (others : List Argument) (body : RequestBody) : Argument :=
  let isUsed := others.any fun a => a.identifier = "body"
  ⟨if isUsed then "body_" else "body", none, "body", body.type, body.required⟩

/-- The arguments of the method for an operation. -/
def operationArguments (o : Operation) : List Argument :=
  let others := parameterArguments ["self"] o.parameters
  others ++ (o.body.map (bodyArgument others)).toList

/-! ### Methods -/

/-- What the names of models are prefixed with outside of their own file. -/
def modelsPrefix : String := "models."

/-- The parameters of a method: those that have to be given, and the others behind a star. -/
def methodParameters (arguments : List Argument) : List Code.Parameter :=
  let required := (arguments.filter (·.required)).map fun a =>
    { name := a.identifier, type := some (.of (typeText modelsPrefix a.type)) }
  let optional := (arguments.filter fun a => !a.required).map fun a =>
    {
      name := a.identifier
      type := some (.of (optionalText (typeText modelsPrefix a.type)))
      default := some (.of "None") }
  { name := "self" } :: required
    ++ (if optional.isEmpty then [] else { name := "*" } :: optional)

/-- The arguments at a place as a mapping from their names. -/
def argumentMapping (arguments : List Argument) (location : Location) : String :=
  let here := arguments.filter fun a => a.location = some location
  "\x7b" ++ String.intercalate ", " (here.map fun a => quoted a.name ++ ": " ++ a.identifier)
    ++ "\x7d"

/-- Whether an argument stands at a place. -/
def hasAt (arguments : List Argument) (location : Location) : Bool :=
  arguments.any fun a => a.location = some location

/-- The media types of forms. -/
def formMediaTypes : List String := ["multipart/form-data", "application/x-www-form-urlencoded"]

/-- Whether a body is sent as a form. -/
def isForm (body : RequestBody) : Bool :=
  formMediaTypes.any (beginsWith body.mediaType) || body.type.kind = .binary

/-- The address of a request inside of the server. -/
def urlExpression (o : Operation) (arguments : List Argument) : String :=
  if hasAt arguments .path then
    "self._url(" ++ quoted o.path ++ ", " ++ argumentMapping arguments .path ++ ")"
  else quoted o.path

/-- What a request is made with, apart from the body and the response. -/
def namedArguments (arguments : List Argument) : List String :=
  [(Location.query, "params"), (.header, "headers"), (.cookie, "cookies")].filterMap fun p =>
    if hasAt arguments p.1 then
      some (p.2 ++ "=drop_none(" ++ argumentMapping arguments p.1 ++ ")")
    else none

/-- What the body of a request is given as. -/
def bodyExpression (arguments : List Argument) (body : RequestBody) : String :=
  let identifier := (arguments.getLast?.map (·.identifier)).getD ""
  (if isForm body then "form_body=" else "json_body=") ++ identifier

/-- The annotation for a response; none stands for no value. -/
def responseText (o : Operation) : String := (o.response.map (typeText modelsPrefix)).getD "None"

/-- The code of the method for an operation. -/
def methodCode (o : Operation) : String :=
  let arguments := operationArguments o
  let call := [quoted o.method, urlExpression o arguments]
    ++ namedArguments arguments
    ++ (o.body.map (bodyExpression arguments)).toList
    ++ (o.response.map fun _ => "response_type=" ++ responseText o).toList
  "return await self._request(\n" ++ String.join (call.map fun a => "\t" ++ a ++ ",\n") ++ ")"

/-- The description of the method for an operation. -/
def methodDescription (o : Operation) : String :=
  let parts := o.summary.toList ++ o.description.toList
    ++ (if o.deprecated then ["Deprecated."] else [])
    ++ [o.method ++ " " ++ o.path]
  String.intercalate "\n\n" (parts.filter (· ≠ ""))

/-- The method for an operation. -/
def operationMethod (o : Operation) : FunctionDef := {
  name := methodName o.name
  parameters := methodParameters (operationArguments o)
  response := responseText o
  isAsync := true
  description := some (methodDescription o)
  code := { code := methodCode o } }

/-! ### The class -/

/-- The name of the client class. -/
def clientName (g : Generation) : String := g.name ++ "Client"

/-- The header that a key is sent in, if it is one. -/
def keyHeader? (s : SecurityScheme) : Option String :=
  if s.type = "apiKey" ∧ s.location = some "header" then s.parameterName.filter (· ≠ "") else none

/-- The method that sets the key of a security scheme. -/
def keySetter (g : Generation) (s : SecurityScheme) (header : String) : FunctionDef := {
  name := "set_" ++ identifier s.name
  parameters := [{ name := "self" }, { name := "value", type := some (.of "str") }]
  response := clientName g
  description := some ("Установка ключа " ++ header)
  code := { code := "self.headers[" ++ quoted header ++ "] = value\nreturn self" } }

/-- The description of the client class. -/
def clientDescription (spec : ApiSpec) : String :=
  match spec.description with
  | none | some "" => spec.title
  | some text => spec.title ++ "\n\n" ++ text

/-- The imports of the client class. -/
def clientImports : List String := [
  "from __future__ import annotations", "", "import datetime as dt",
  "from typing import Any, Dict, List, Optional", "", "from . import models",
  "from .common import BaseClient, drop_none"]

/-- The file with the client class. -/
def clientFile (spec : ApiSpec) (g : Generation) : CodeFile :=
  let setters := spec.securitySchemes.filterMap fun s => (keyHeader? s).map (keySetter g s)
  {
    path := g.packageName ++ "/client.py"
    imports := clientImports
    classes := [{
      name := clientName g
      bases := ["BaseClient"]
      description := some (clientDescription spec)
      functions := setters ++ spec.operations.map operationMethod }] }

end ApiClientGen.Client
