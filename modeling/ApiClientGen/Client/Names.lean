/-
Names in the generated client.

Fields of models must not collide with what their base class or the annotations in
the file use, methods not with what the client's base class uses, and the members of
an enumeration are constants in capital letters.
-/
import ApiClientGen.Naming.Words
import ApiClientGen.Text.Layout
import ApiClientGen.Text.Quoted
import ApiClientGen.Text.Split

namespace ApiClientGen.Client

open ApiClientGen.Naming ApiClientGen.Text

/-! ### Fields -/

/-- The attributes of the models' base class that an identifier in small letters can hit. -/
def baseModelAttributes : List String := [
  "construct", "copy", "dict", "from_orm", "json", "mro", "parse_file", "parse_obj",
  "parse_raw", "register", "schema", "schema_json", "update_forward_refs", "validate"]

/-- The names that annotations in the models file use. -/
def annotationNames : List String := [
  "dt", "str", "int", "float", "bool", "bytes", "Any", "ClassVar", "Dict", "List", "Optional",
  "Enum", "BaseModel", "ConfigDict", "Field"]

/-- The name of a model's field for a property. -/
def fieldIdentifier (name : String) : String :=
  let plain := identifier name
  let visible :=
    if beginsWith plain "_" || beginsWith plain "model_" then
      "field_" ++ String.ofList (plain.toList.dropWhile (· == '_'))
    else plain
  if baseModelAttributes.contains visible || annotationNames.contains visible then visible ++ "_"
  else visible

/-! ### Members of enumerations -/

/-- The characters with every run of low lines shortened to one. -/
def squeezeLowLines : List Char → List Char
  | [] => []
  | c :: rest =>
    if c = '_' ∧ rest.head? = some '_' then squeezeLowLines rest else c :: squeezeLowLines rest

/-- The letters and digits of a value in capitals, with low lines for what stands between them. -/
def constantName (value : List Char) : List Char :=
  trimBy (· == '_') (squeezeLowLines (value.map fun c => if c.isAlphanum then c.toUpper else '_'))

/-- The name of the enumeration member for a value. -/
def memberName (value : String) : String :=
  let chars := value.toList
  if chars.isEmpty then "EMPTY"
  else if chars.all isBlank then "SPACE"
  else
    let name := String.ofList (constantName chars)
    if name = "" then "VALUE"
    else if chars.head? = some '-' then "MINUS_" ++ name
    else if startsWithDigit name then "VALUE_" ++ name
    else name

/-! ### Methods -/

/-- The attributes of the client's base class. -/
def clientAttributes : List String := ["close", "set_auth_token", "headers", "base_url"]

/-- The name of the method for an operation. -/
def methodName (operation : String) : String :=
  let name := identifier operation
  if clientAttributes.contains name then name ++ "_" else name

/-! ### Base classes -/

/-- A base class of the models: its name, and the line that imports it if it has a module. -/
structure BaseClass where
  name : String
  importLine : Option String
  deriving DecidableEq, Repr

/-- Reads a base class from its dotted name; every part is an identifier and no reserved word. -/
def BaseClass.ofDotted? (dotted : String) : Option BaseClass :=
  let parts := pieces '.' dotted
  if parts.all fun p => isIdentifier p && !isReserved p then
    match parts.dropLast, parts.getLast? with
    | [], _ => some ⟨dotted, none⟩
    | modules, some name =>
      some ⟨name, some ("from " ++ String.intercalate "." modules ++ " import " ++ name)⟩
    | _, none => none
  else none

/-- What is wrong with a dotted name that is no base class. -/
def invalidBaseClass (dotted : String) : String :=
  "некорректное имя базового класса: " ++ quoted dotted

end ApiClientGen.Client
