/-
Words of a name, the spellings made from them, and names that the generated code may use.

A name is cut into words at everything that is no ASCII letter or digit, where a
small letter or digit is followed by a capital one, and before the last capital of a
run of capitals that a small letter follows.  The words joined with low lines in
small letters, or put together with capital first letters, are the two spellings
that all generated names start from.

A name becomes an identifier by its snake case spelling.  An empty one is called
`field`, a leading digit gets a low line in front of it, and a reserved word or a
name that every method already uses gets one behind it.
-/
import ApiClientGen.Text.Identifier

namespace ApiClientGen.Naming

open ApiClientGen.Text

/-! ### Words -/

/-- Whether a character belongs to words: an ASCII letter or digit. -/
def isWordChar (c : Char) : Bool := c.isAlphanum

/-- Whether a word begins at `c`, which follows `before` and is followed by `after`. -/
def startsWord (before c : Char) (after : Option Char) : Bool :=
  c.isUpper && (before.isLower || before.isDigit
    || (before.isUpper && (after.map Char.isLower).getD false))

/-- Puts a character in front of the first word. -/
def consFirst (c : Char) : List (List Char) → List (List Char)
  | [] => [[c]]
  | w :: ws => (c :: w) :: ws

/-- The words of a name. -/
def words : List Char → List (List Char)
  | [] => []
  | c :: rest =>
    if isWordChar c then
      match rest.head? with
      | some next =>
        if isWordChar next && !startsWord c next (rest.drop 1).head? then consFirst c (words rest)
        else [c] :: words rest
      | none => [[c]]
    else words rest

theorem flatten_consFirst (c : Char) (ws : List (List Char)) :
    (consFirst c ws).flatten = c :: ws.flatten := by
  cases ws <;> simp [consFirst]

/-- The words put together are the letters and digits of the name. -/
theorem flatten_words (s : List Char) : (words s).flatten = s.filter isWordChar := by
  induction s with
  | nil => rfl
  | cons c rest ih =>
    simp only [words]
    split
    · next hc =>
      cases rest with
      | nil => simp [hc]
      | cons d more =>
        simp only [List.head?_cons]
        split <;> simp_all [flatten_consFirst]
    · next hc => simp_all

/-! ### Spellings -/

/-- A word in small letters. -/
def small (word : List Char) : List Char := word.map Char.toLower

/-- A word with a capital first letter and small ones behind it. -/
def capitalized : List Char → List Char
  | [] => []
  | c :: rest => c.toUpper :: small rest

/-- The words in small letters with low lines between them. -/
def snakeCase (name : String) : String :=
  String.ofList (List.intercalate ['_'] ((words name.toList).map small))

/-- The words with capital first letters, put together. -/
def pascalCase (name : String) : String :=
  String.ofList ((words name.toList).flatMap capitalized)

/-! ### Identifiers -/

/-- Whether a text begins with an ASCII digit. -/
def startsWithDigit (s : String) : Bool := (s.toList.head?.map Char.isDigit).getD false

/-- The identifier made from a name. -/
def identifier (name : String) : String :=
  let snake := snakeCase name
  let named := if snake = "" then "field" else snake
  let lettered := if startsWithDigit named then "_" ++ named else named
  if isReserved lettered || lettered == "self" || lettered == "client" then lettered ++ "_"
  else lettered

/-- The first of `name`, `mark 2`, `mark 3`, … that is not taken. -/
def firstFree (taken : List String) (name : String) (mark : Nat → String) : String :=
  if taken.contains name then
    ((List.range (taken.length + 1)).map fun n => mark (n + 2)).find? (fun c => !taken.contains c)
      |>.getD name
  else name

end ApiClientGen.Naming
