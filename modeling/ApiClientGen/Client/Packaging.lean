/-
The files around the generated client.

A client comes with a description of its package, a text to read first, a file that makes
its names known, and an example for every operation.
-/
import ApiClientGen.Client.Methods
import ApiClientGen.Client.Models
import ApiClientGen.Toml.Writer

namespace ApiClientGen.Client

open ApiClientGen.Code ApiClientGen.Document ApiClientGen.Settings ApiClientGen.Spec
open ApiClientGen.Text

/-! ### The package -/

/-- The description of the package as a table. -/
def packageTable (spec : ApiSpec) (g : Generation) : Fields Value := [
  ("build-system", .mapping [
    ("requires", .list [.string "setuptools>=61"]),
    ("build-backend", .string "setuptools.build_meta")]),
  ("project", .mapping [
    ("name", .string g.packageName),
    ("version", .string (if spec.version = "" then "0.1.0" else spec.version)),
    ("description", .string ("Клиент для " ++ spec.title)),
    ("requires-python", .string ">=3.10"),
    ("dependencies", .list [.string "aiohttp>=3.8.0", .string "pydantic>=2.0.0"])])]

/-- The file that describes the package, if all its texts can be written. -/
def packageFile? (spec : ApiSpec) (g : Generation) : Option CodeFile := do
  return .ofCode "pyproject.toml" (trimmed (← (Toml.write (packageTable spec g)).toOption))

/-- The file that makes the names of the package known. -/
def exportsFile (g : Generation) : CodeFile := {
  path := g.packageName ++ "/__init__.py"
  imports := [
    "from . import models", "from .client import " ++ clientName g,
    "from .common import SendRequestError"]
  blocks := [{ code := exportsLine [clientName g, "SendRequestError", "models"] }] }

/-! ### The text to read first -/

/-- The lines of the text to read first. -/
def readmeLines (name title version package client baseUrl : String) : List String := [
  "# " ++ name,
  "",
  "Клиент для " ++ title ++ " (версия API: " ++ version ++ ").",
  "",
  "```python",
  "import asyncio",
  "",
  "from " ++ package ++ " import " ++ client,
  "",
  "",
  "async def main():",
  "    async with " ++ client ++ "(\"" ++ baseUrl ++ "\") as client:",
  "        ...",
  "",
  "",
  "asyncio.run(main())",
  "```"]

/-- The text to read first. -/
def readmeFile (spec : ApiSpec) (g : Generation) (baseUrl : String) : CodeFile :=
  let version := if spec.version = "" then "-" else spec.version
  .ofCode "README.md" (String.intercalate "\n"
    (readmeLines g.name spec.title version g.packageName (clientName g) baseUrl))

/-! ### Examples -/

/-- The lines of an example. -/
def exampleLines (package client operation arguments : String) : List String := [
  "import asyncio",
  "",
  "from " ++ package ++ " import " ++ client,
  "from " ++ package ++ " import models  # noqa: F401",
  "",
  "",
  "async def main():",
  "    async with " ++ client ++ "() as client:",
  "        response = await client." ++ operation ++ "(" ++ arguments ++ ")",
  "        print(response)",
  "",
  "",
  "if __name__ == \"__main__\":",
  "    asyncio.run(main())"]

/-- The arguments of the call in an example: placeholders for all that has to be given. -/
def exampleArguments (spec : ApiSpec) (g : Generation) (o : Operation) : String :=
  String.intercalate ", " (((operationArguments o).filter (·.required)).map fun a =>
    a.identifier ++ "=" ++ placeholder spec (g.has .fake) modelsPrefix a.type)

/-- The example for an operation. -/
def exampleFile (spec : ApiSpec) (g : Generation) (o : Operation) : CodeFile :=
  .ofCode ("examples/" ++ methodName o.name ++ ".py") (String.intercalate "\n"
    (exampleLines g.packageName (clientName g) (methodName o.name) (exampleArguments spec g o)))

end ApiClientGen.Client
