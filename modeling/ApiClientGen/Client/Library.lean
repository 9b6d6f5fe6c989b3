/-
The generated client as a project.

The files are the description of the package, the text to read first, the base of the
client, its models, the client itself, the file that makes its names known, and the
examples.  Nothing can go wrong but the names of base classes, a type without the name of
its model, a version that cannot be written, and a class with a value that cannot be.
-/
import ApiClientGen.Client.BaseFile
import ApiClientGen.Client.Packaging

namespace ApiClientGen.Client

open ApiClientGen.Code ApiClientGen.Settings ApiClientGen.Spec ApiClientGen.Text

/-- Why no client can be generated. -/
inductive Failure where
  /-- A text names no base class. -/
  | baseClass (dotted : String)
  /-- A type is that of a model without a name. -/
  | unnamedModel
  /-- A text cannot be written into the description of the package. -/
  | unwritable
  /-- A value in the models cannot be written. -/
  | literal (fault : LiteralFault)
  deriving DecidableEq, Repr

namespace Failure

/-- What is wrong, in words. -/
def message : Failure → String
  | baseClass dotted => invalidBaseClass dotted
  | unnamedModel => "модель без имени"
  | unwritable => "значение нельзя записать"
  | literal fault => fault.message

end Failure

/-! ### The address of the server -/

/-- The address that is used where an interface names none. -/
def defaultBaseUrl : String := "http://localhost"

/-- The address of the first server, below the default one if it has no scheme. -/
def baseUrl (spec : ApiSpec) : String :=
  match spec.servers.head? with
  | none => defaultBaseUrl
  | some server =>
    if beginsWith server.url "http://" || beginsWith server.url "https://" then server.url
    else defaultBaseUrl ++ "/" ++ String.ofList (server.url.toList.dropWhile (· == '/'))

/-! ### Base classes -/

/-- The base classes with the names given; of several with one name only the first counts. -/
def baseClasses (dotted : List String) : Except Failure (List BaseClass) := do
  let all ← dotted.mapM fun d =>
    match BaseClass.ofDotted? d with
    | some b => .ok b
    | none => .error (.baseClass d)
  return all.foldl (fun done b => if done.any (·.name == b.name) then done else done ++ [b]) []

/-! ### The project -/

/-- The project of the client for an interface. -/
def library (spec : ApiSpec) (g : Generation) : Except Failure Project := do
  let bases ← baseClasses g.derives
  let some package := packageFile? spec g | throw .unwritable
  if !spec.types.all isNamed then throw .unnamedModel
  if let some fault := spec.schemas.findSome? fun e => classFault? e.2 then throw (.literal fault)
  let url := baseUrl spec
  let examples := if g.buildExamples then spec.operations.map (exampleFile spec g) else []
  return {
    name := g.packageName
    files := [package, readmeFile spec g url, BaseFile.file g.packageName (quoted url),
      modelsFile spec g bases, clientFile spec g, exportsFile g] ++ examples }

end ApiClientGen.Client
