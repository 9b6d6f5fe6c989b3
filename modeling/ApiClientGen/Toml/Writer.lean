/-
Writing settings as TOML.

A table is written field by field, the tables inside of it behind the other fields, each
under its name between brackets and after an empty line, and a list of tables item by
item.  A text is written from its quoted literal: with double quotes around it, and with
short codes of characters either kept or written as four digits, by the number of
backslashes in front of them.  The first text or integer that cannot be written ends the
writing, in the order of the fields.
-/
import ApiClientGen.Document.Display
import ApiClientGen.Text.Split

namespace ApiClientGen.Toml

open ApiClientGen.Document ApiClientGen.Number ApiClientGen.Text

/-! ### Texts -/

/-- The characters with every escaped single quote bare. -/
def bareSingleQuotes : List Char → List Char
  | '\\' :: '\'' :: rest => '\'' :: bareSingleQuotes rest
  | c :: rest => c :: bareSingleQuotes rest
  | [] => []

/-- What stands between the quotes of a literal, as it may stand between double quotes. -/
def betweenDoubleQuotes (s : List Char) : List Char :=
  let body := s.flatMap (escaped (quoteFor s))
  if quoteFor s = '\'' then
    (bareSingleQuotes body).flatMap fun c => if c = '"' then ['\\', '"'] else [c]
  else body

/-- The characters with every two backslashes as one. -/
def halveBackslashes : List Char → List Char
  | '\\' :: '\\' :: rest => '\\' :: halveBackslashes rest
  | c :: rest => c :: halveBackslashes rest
  | [] => []

/-- How a piece is joined to the next one, by the backslashes that it ends in. -/
def joiner (piece : List Char) : List Char :=
  let count := (piece.reverse.takeWhile (· = '\\')).length
  let isAlone := count = piece.length
  if count = 0 ∨ (count % 2 = 1 ∧ ¬isAlone) ∨ (count % 2 = 0 ∧ isAlone) then ['x']
  else ['u', '0', '0']

/-- Joins a piece with the ones behind it. -/
def joinPieces (piece : List Char) : List (List Char) → List Char
  | [] => piece
  | next :: rest =>
    let halved := halveBackslashes piece
    joinPieces (halved ++ joiner halved ++ next) rest

/-- Joins the pieces of a text; an empty one in front is left out, but not if it is one of only two. -/
def joined? : List (List Char) → Option (List Char)
  | [] => some []
  | [piece] => some piece
  | [] :: [_] => none
  | [] :: piece :: rest => some (joinPieces piece rest)
  | piece :: rest => some (joinPieces piece rest)

/-- A text as it is written; a text that is one character with a short code cannot be. -/
def text? (s : String) : Option String :=
  (joined? (splitOnPair '\\' 'x' (betweenDoubleQuotes s.toList))).map fun body =>
    String.ofList ('"' :: body ++ ['"'])

/-- Why a table is not written. -/
inductive WriteFault where
  /-- A text that is one character with a short code. -/
  | text
  /-- An integer has more digits than are written. -/
  | longInteger
  /-- Something else stands among tables. -/
  | notTable
  deriving DecidableEq, Repr

/-- A text as it is written, if it can be. -/
def writtenText (s : String) : Except WriteFault String :=
  match text? s with
  | some written => .ok written
  | none => .error .text

/-! ### Values -/

/-- The exponent of a number with a leading zero left out. -/
def shortExponent : List Char → List Char
  | 'e' :: sign :: '0' :: rest =>
    if sign = '+' ∨ sign = '-' then 'e' :: sign :: rest else 'e' :: sign :: '0' :: rest
  | c :: rest => c :: shortExponent rest
  | [] => []

/-- The moment with universal time marked by a letter. -/
def momentText (m : Moment) : String :=
  if m.offset = some 0 then { m with offset := none }.textWith "T" ++ "Z" else m.textWith "T"

/-- A scalar as it is written. -/
def writtenScalar : Scalar → Except WriteFault String
  | .null => writtenText "None"
  | .bool b => .ok (if b then "true" else "false")
  | .int i => if exceedsDigits i then .error .longInteger else .ok (toString i)
  | .float x => .ok (String.ofList (shortExponent x.text.toList))
  | .string s => writtenText s
  | .date d => .ok d.text
  | .moment m => .ok (momentText m)
  | .clock c => .ok c.text
  | .bytes bs => writtenText (quotedBytes bs)

mutual

/-- A value as it is written behind its key; a mapping inside of a list is written as its keys. -/
def writtenValue : Value → Except WriteFault String
  | .scalar s => writtenScalar s
  | .list vs => do return "[" ++ String.join (← writtenItems vs) ++ "]"
  | .mapping fields => do return "[" ++ String.join (← writtenKeys fields) ++ "]"

/-- The items of a list as they are written. -/
def writtenItems : List Value → Except WriteFault (List String)
  | [] => .ok []
  | v :: rest => do return (" " ++ (← writtenValue v) ++ ",") :: (← writtenItems rest)

/-- The keys of a mapping as they are written. -/
def writtenKeys : List (String × Value) → Except WriteFault (List String)
  | [] => .ok []
  | (k, _) :: rest => do return (" " ++ (← writtenText k) ++ ",") :: (← writtenKeys rest)

end

/-! ### Tables -/

/-- Whether a key may stand without quotes. -/
def isBareKey (key : String) : Bool :=
  !key.isEmpty && key.toList.all fun c => c.isAlphanum || c == '_' || c == '-'

/-- A key as it is written. -/
def writtenKey (key : String) : Except WriteFault String :=
  if isBareKey key then .ok key else writtenText key

/-- A table, or a part of one: its lines, and the tables inside of it by their written names. -/
abbrev Section := String × List (String × Fields Value)

/-- A name below another one. -/
def below (outer name : String) : String := if outer = "" then name else outer ++ "." ++ name

/-- Whether a value is a list with a table in it. -/
def isTableList : Value → Bool
  | .list items => items.any Value.isMapping
  | _ => false

/-- The tables below an item of a list, level by level, each behind its name if it has lines. -/
def nestedTables (read : String → Fields Value → Except WriteFault Section) (outer : String) :
    Nat → String → List (String × Fields Value) → Except WriteFault String
  | _, done, [] => .ok done
  | 0, done, _ => .ok done
  | levels + 1, done, tables => do
    let (done, inside) ← tables.foldlM (fun acc table => do
      let name := below outer table.1
      let (lines, inside) ← read name table.2
      let head := if lines = "" then "" else "[" ++ name ++ "]\n"
      return (acc.1 ++ head ++ lines, acc.2 ++ inside.map fun t => (below table.1 t.1, t.2)))
      (done, ([] : List (String × Fields Value)))
    nestedTables read outer levels done inside

/-- The fields of an item of a list of tables; an empty list or text counts as an empty table. -/
def itemFields : Value → Except WriteFault (Fields Value)
  | .mapping fields => .ok fields
  | .list [] => .ok []
  | .string "" => .ok []
  | _ => .error .notTable

/-- An item of a list of tables, behind its name between double brackets. -/
def tableItem (read : String → Fields Value → Except WriteFault Section) (levels : Nat) (name : String)
    (item : Value) : Except WriteFault String := do
  let (lines, inside) ← read name (← itemFields item)
  let head := "[[" ++ name ++ "]]\n"
  if beginsWith lines "[" then return head ++ (← nestedTables read name levels ("\n" ++ lines) inside)
  else return head ++ lines ++ (← nestedTables read name levels "\n" inside)

/-- What a field of a table becomes: a line, a list of tables, or a table inside of it. -/
structure FieldParts where
  line : String := ""
  list : String := ""
  tables : List (String × Fields Value) := []

/-- What a field becomes, its key first. -/
def fieldParts (item : String → Value → Except WriteFault String) (outer : String)
    (e : String × Value) : Except WriteFault FieldParts := do
  let key ← writtenKey e.1
  match e.2 with
  | .mapping inner => return { tables := [(key, inner)] }
  | v =>
    if isTableList v then
      return { list := String.join (← v.asItems.mapM (item (below outer key))) }
    else return { line := key ++ " = " ++ (← writtenValue v) ++ "\n" }

/--
The lines of a table and the tables inside of it, to a number of levels: the fields that are
neither tables nor lists of them come first, and the lists of tables follow.
-/
def tableSection : Nat → String → Fields Value → Except WriteFault Section
  | 0, _, _ => .ok ("", [])
  | levels + 1, outer, fields => do
    let parts ← fields.mapM (fieldParts (tableItem (tableSection levels) levels) outer)
    return (String.join (parts.map (·.line)) ++ String.join (parts.map (·.list)),
      parts.flatMap (·.tables))

/-- What has been written, and a table behind it. -/
def appendTable (done name lines : String) (hasTables : Bool) : String :=
  if lines = "" ∧ hasTables then done
  else
    let gap := if done = "" ∨ endsIn done "\n\n" then "" else "\n"
    done ++ gap ++ "[" ++ name ++ "]\n" ++ lines

/-- Tables level by level, at most as many levels as given. -/
def writtenTables : Nat → String → List (String × Fields Value) → Except WriteFault String
  | _, done, [] => .ok done
  | 0, done, _ => .ok done
  | levels + 1, done, tables => do
    let (done, inside) ← tables.foldlM (fun acc table => do
      let (lines, inside) ← tableSection (levels + 1) table.1 table.2
      return (appendTable acc.1 table.1 lines (!inside.isEmpty),
        acc.2 ++ inside.map fun t => (below table.1 t.1, t.2)))
      (done, ([] : List (String × Fields Value)))
    writtenTables levels done inside

mutual

/-- How many levels of mappings and lists a value has. -/
def levelsOf : Value → Nat
  | .scalar _ => 0
  | .list items => itemLevels items + 1
  | .mapping fields => fieldLevels fields + 1

/-- How many levels of mappings and lists there are in some items. -/
def itemLevels : List Value → Nat
  | [] => 0
  | v :: rest => max (levelsOf v) (itemLevels rest)

/-- How many levels of mappings and lists there are in some fields. -/
def fieldLevels : List (String × Value) → Nat
  | [] => 0
  | (_, v) :: rest => max (levelsOf v) (fieldLevels rest)

end

/-- A table as TOML, if all its texts and integers can be written. -/
def write (fields : Fields Value) : Except WriteFault String := do
  let levels := fieldLevels fields + 1
  let (top, tables) ← tableSection levels "" fields
  writtenTables levels top tables

end ApiClientGen.Toml
