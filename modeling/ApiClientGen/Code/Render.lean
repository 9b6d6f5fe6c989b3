/-
The text of generated code.

Members of a class or a file are written by falling order; of equal order, blocks
come before functions and functions before classes, each in the order in which they
were added.  Bodies are indented by one step, tabs in code become such steps, and a
function with more than two parameters has one parameter to a line.
-/
import ApiClientGen.Code.Docstring
import ApiClientGen.Code.Model
import ApiClientGen.Text.Layout

namespace ApiClientGen.Code

open ApiClientGen.Text

mutual

/-- The text of an expression; a wrapper with nothing inside stands for any type. -/
def Expression.render : Expression → String
  | .text s => s
  | .group items wrapper =>
    let joined := String.intercalate ", " (renderItems items)
    match wrapper with
    | none => joined
    | some name => if joined = "" then "Any" else name ++ "[" ++ joined ++ "]"

/-- The texts of the items of a group. -/
def renderItems : List Expression → List String
  | [] => []
  | e :: rest => e.render :: renderItems rest

end

/-- The text of a parameter: its name, its type and its default. -/
def Parameter.render (p : Parameter) : String :=
  p.name ++ (match p.type with | some t => ": " ++ t.render | none => "")
    ++ (match p.default with | some d => " = " ++ d.render | none => "")

/-- The text of a block. -/
def Block.render (b : Block) : String := expandTabs b.code

/-- One step of indentation as text. -/
def indentText : String := String.ofList indentStep

/-- The parameters between parentheses. -/
def signature (ps : List Parameter) : String :=
  if 2 < ps.length then
    "(\n" ++ String.join (ps.map fun p => indentText ++ p.render ++ ",\n") ++ ")"
  else "(" ++ String.intercalate ", " (ps.map Parameter.render) ++ ")"

/-- The texts that are not empty. -/
def nonEmpty (ss : List String) : List String := ss.filter (· ≠ "")

/-- The text of a function. -/
def FunctionDef.render (f : FunctionDef) : String :=
  let head := (if f.isAsync then "async " else "") ++ "def " ++ f.name ++ signature f.parameters
    ++ " -> " ++ f.response ++ ":"
  let body := String.intercalate "\n" (nonEmpty [docstring (f.description.getD ""), f.code.render])
  String.intercalate "\n" (f.decorators ++ [head]) ++ "\n" ++ indented body

/-- Members with their orders, written from the highest order to the lowest. -/
def byOrder (members : List (Int × String)) : List String :=
  (members.mergeSort fun a b => b.1 ≤ a.1).map Prod.snd

/-- The blocks with their orders and texts. -/
def blockMembers (bs : List Block) : List (Int × String) := bs.map fun b => (b.order, b.render)

/-- The functions with their orders and texts. -/
def functionMembers (fs : List FunctionDef) : List (Int × String) :=
  fs.map fun f => (f.order, f.render)

/-- The text of a class. -/
def ClassDef.render (c : ClassDef) : String :=
  let head := "class " ++ c.name
    ++ (if c.bases.isEmpty then "" else "(" ++ String.intercalate ", " c.bases ++ ")") ++ ":"
  let description := nonEmpty [docstring (c.description.getD "")]
  let parameters :=
    if c.parameters.isEmpty then []
    else [String.intercalate "\n" (c.parameters.map Parameter.render)]
  let members := byOrder (blockMembers c.blocks ++ functionMembers c.functions)
  let body := String.intercalate "\n\n" (description ++ parameters ++ members)
  head ++ "\n" ++ indented (if body = "" then "pass" else body)

/-- The text of a file. -/
def CodeFile.render (f : CodeFile) : String :=
  let imports := if f.imports.isEmpty then [] else [String.intercalate "\n" f.imports]
  let members := byOrder (blockMembers f.blocks ++ functionMembers f.functions
    ++ f.classes.map fun c => (c.order, c.render))
  expandTabs (String.intercalate "\n\n\n" (imports ++ members) ++ "\n")

end ApiClientGen.Code
