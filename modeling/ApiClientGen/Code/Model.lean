/-
Generated code as data.

A project is a list of files, a file holds imports, functions, classes and blocks of
code, and so on down to the expressions in parameters.  Every member has an order;
members of one container are written from the highest order to the lowest.
-/

namespace ApiClientGen.Code

/-- An expression of a type or a value: text, or a group that a wrapper may stand around. -/
inductive Expression where
  | text (s : String)
  | group (items : List Expression) (wrapper : Option String)
  deriving Repr, Inhabited

namespace Expression

/-- The expression that is one text. -/
def of (s : String) : Expression := .group [.text s] none

/-- Texts with a wrapper around them. -/
def wrapped (wrapper : String) (items : List String) : Expression :=
  .group (items.map .text) (some wrapper)

end Expression

/-- A parameter of a function, or an attribute of a class. -/
structure Parameter where
  name : String
  default : Option Expression := none
  type : Option Expression := none
  order : Int := 0
  deriving Repr, Inhabited

/-- A block of code. -/
structure Block where
  order : Int := 0
  code : String := "pass"
  deriving Repr, Inhabited, DecidableEq

/-- A function or a method. -/
structure FunctionDef where
  name : String
  parameters : List Parameter := []
  response : String := "None"
  isAsync : Bool := false
  decorators : List String := []
  description : Option String := none
  code : Block := {}
  order : Int := 0
  deriving Repr, Inhabited

/-- A class. -/
structure ClassDef where
  name : String
  functions : List FunctionDef := []
  blocks : List Block := []
  parameters : List Parameter := []
  bases : List String := []
  description : Option String := none
  order : Int := 0
  deriving Repr, Inhabited

/-- A source file. -/
structure CodeFile where
  path : String
  imports : List String := []
  functions : List FunctionDef := []
  classes : List ClassDef := []
  blocks : List Block := []
  deriving Repr, Inhabited

/-- A generated project. -/
structure Project where
  name : String
  files : List CodeFile := []
  deriving Repr, Inhabited

namespace CodeFile

/-- The file with an import line, unless it has it already. -/
def addImport (f : CodeFile) (line : String) : CodeFile :=
  if f.imports.contains line then f else { f with imports := f.imports ++ [line] }

/-- The first class with a name. -/
def class? (f : CodeFile) (name : String) : Option ClassDef := f.classes.find? (·.name == name)

/-- A file that holds one block of code. -/
def ofCode (path code : String) : CodeFile := { path, blocks := [{ code }] }

end CodeFile

namespace Project

/-- The first file with a path. -/
def file? (p : Project) (path : String) : Option CodeFile := p.files.find? (·.path == path)

end Project

end ApiClientGen.Code
