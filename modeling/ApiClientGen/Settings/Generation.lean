/-
The settings of one generation.

Inputs come from a command line or a file of settings and may hold values of any kind.
The settings of a generation are made from them once, and nothing about them can be wrong
any more.
-/
import ApiClientGen.Document.Value
import ApiClientGen.Files.Path
import ApiClientGen.Naming.Words
import ApiClientGen.Settings.Options

namespace ApiClientGen.Settings

open ApiClientGen.Document ApiClientGen.Files ApiClientGen.Naming

/-- What a generation is asked for. -/
structure Inputs where
  name : Value
  language : String := Language.python.name
  outputDir : Value := .null
  derives : List String := []
  examples : Bool := true
  flags : List String := []
  deriving Repr

/-- Why no settings can be made from inputs. -/
inductive InputsFault where
  /-- A name or a path is no text. -/
  | notText
  /-- An option is not known. -/
  | unknown (option : UnknownOption)
  deriving DecidableEq, Repr

/-- The settings of one generation. -/
structure Generation where
  name : String
  destination : Path
  derives : List String := []
  buildExamples : Bool := true
  flags : List Flag := []
  language : Language := .python
  deriving Repr

namespace Generation

/-- The name of the generated package. -/
def packageName (g : Generation) : String := snakeCase g.name

/-- Whether a flag is set. -/
def has (g : Generation) (flag : Flag) : Bool := g.flags.contains flag

end Generation

/-- Where to write: the directory asked for, or else the one that the program runs in. -/
def destinationOf (directory : Path) (outputDir : Value) : Except InputsFault Path :=
  if outputDir.isSomething then
    match outputDir with
    | .string text => .ok (Path.ofString text)
    | _ => .error .notText
  else .ok directory

/-- The settings that inputs ask for, in a program that runs in the directory given. -/
def Inputs.generation (directory : Path) (inputs : Inputs) : Except InputsFault Generation := do
  let destination ← destinationOf directory inputs.outputDir
  let .string name := inputs.name | throw .notText
  let flags ← (inputs.flags.mapM Flag.ofName).mapError .unknown
  let language ← (Language.ofName inputs.language).mapError .unknown
  return {
    name := pascalCase name
    destination
    derives := inputs.derives
    buildExamples := inputs.examples
    flags := Flag.all.filter flags.contains
    language }

end ApiClientGen.Settings
