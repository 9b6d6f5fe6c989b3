/-
Reading TOML.

The lines of a text are read one after the other: a header opens the table that the
assignments behind it go to, and a text of several lines is collected until it ends.  A
table that only lies on the way to another one may be opened once more later on.
-/
import ApiClientGen.Toml.Values

namespace ApiClientGen.Toml

open ApiClientGen.Document ApiClientGen.Text

/-- A step from a value to one inside of it. -/
inductive Step where
  | key (name : String)
  | last
  deriving DecidableEq, Repr

/-- Changes the value that lies behind some steps. -/
def changeAt {α : Type} (change : Value → Except Fault (Value × α)) :
    List Step → Value → Except Fault (Value × α)
  | [], v => change v
  | .key name :: rest, .mapping fields => do
    match Fields.get? fields name with
    | some w =>
      let (w, a) ← changeAt change rest w
      return (.mapping (Fields.set fields name w), a)
    | none => throw .notTable
  | .last :: rest, .list items =>
    match items.getLast? with
    | some w => do
      let (w, a) ← changeAt change rest w
      return (.list (items.dropLast ++ [w]), a)
    | none => .error .pastEnd
  | _, _ => .error .notTable

/-! ### Headers -/

/-- What a header names. -/
structure HeaderLine where
  names : List String
  isArray : Bool
  deriving Repr

/-- Whether a name in a header may stand without quotes. -/
def isPlainName (s : List Char) : Bool :=
  !s.isEmpty && s.all fun c => c.isAlphanum || c == '_' || c == '-'

/-- Whether a text has one quote at both its ends. -/
def isQuotedName (s : List Char) : Bool := 1 < s.length && s.head? == s.getLast?

/--
A name in quotes from its first piece, with pieces added as long as its last quote is
missing, and the pieces that are left.
-/
def quotedName (name : List Char) : List (List Char) → Except Fault (List Char × List (List Char))
  | [] => if isQuotedName (trim name) then .ok (inner 1 (trim name), []) else .error .malformed
  | next :: rest =>
    if isQuotedName (trim name) then .ok (inner 1 (trim name), next :: rest)
    else quotedName (name ++ '.' :: next) rest

/-- The names of a header from the pieces between its dots, at most as many as given. -/
def headerNames : Nat → List (List Char) → Except Fault (List String)
  | 0, _ => .ok []
  | _, [] => .ok []
  | fuel + 1, piece :: rest => do
    let name := trim piece
    if (name.head?.map isQuote).getD false then
      let (whole, rest) ← quotedName name rest
      return String.ofList whole :: (← headerNames fuel rest)
    else if isPlainName name then return String.ofList name :: (← headerNames fuel rest)
    else throw .malformed

/-- What stands in front of the closing bracket of a header; nothing but blanks may follow it. -/
def headerBody (cut : List Char → List (List Char)) (closing line : List Char) :
    Except Fault (List Char) := do
  let cuts := 1 + cutsInQuotes (fun part => (cut part).length - 1) false (quoteParts line)
  let parts := cut line
  if parts.length ≤ cuts then throw .malformed
  let behind := List.intercalate closing (parts.drop cuts)
  if trim behind ≠ [] then throw .malformed
  return List.intercalate closing (parts.take cuts)

/-- Reads a header. -/
def headerLine (line : List Char) : Except Fault HeaderLine := do
  match line.drop 1 with
  | [] => throw .malformed
  | '[' :: rest =>
    let pieces := splitOn '.' (← headerBody (splitOnPair ']' ']') [']', ']'] rest)
    return ⟨← headerNames (pieces.length + 1) pieces, true⟩
  | rest =>
    let pieces := splitOn '.' (← headerBody (splitOn ']') [']'] rest)
    return ⟨← headerNames (pieces.length + 1) pieces, false⟩

/-! ### Opening a table -/

/-- What opening a table leads to: the value with the table in it, the way to it, and the tables on the way that were made. -/
structure Opened where
  value : Value
  place : List Step
  implied : List String

/-- The last part of a value that is used like a list. -/
def lastPart : Value → Except Fault Value
  | .list items => match items.getLast? with
    | some v => .ok v
    | none => .error .pastEnd
  | .string s => match s.toList.getLast? with
    | some c => .ok (.string (String.singleton c))
    | none => .error .pastEnd
  | _ => .error .notTable

/-- A table that is new, or a list with one. -/
def newTable (isArray : Bool) : Value := if isArray then .list [.mapping []] else .mapping []

/-- What stands under the last name of a header, when there is something already. -/
def reopened (name : String) (isArray : Bool) (implied : List String) (v : Value) :
    Except Fault (Value × List String) :=
  if implied.contains name then
    if isArray then .error .malformed else .ok (v, implied.erase name)
  else if isArray then
    match v with
    | .list items => .ok (.list (items ++ [.mapping []]), implied)
    | _ => .error .notList
  else .error .malformed

/-- Opens a table by the names of its header, inside of the value given. -/
def openTable (isArray : Bool) (implied : List String) (v : Value) :
    List String → Except Fault Opened
  | [] => .ok ⟨v, [], implied⟩
  | name :: rest => do
    if name = "" then throw .malformed
    match v with
    | .mapping fields =>
      let (w, implied) ←
        match Fields.get? fields name with
        | some w => if rest.isEmpty then reopened name isArray implied w else .ok (w, implied)
        | none =>
          .ok (newTable (isArray && rest.isEmpty), if rest.isEmpty then implied else implied ++ [name])
      let o ← enter w implied rest
      return ⟨.mapping (Fields.set fields name o.value), .key name :: o.place, o.implied⟩
    | .list items =>
      match items.getLast? with
      | none => throw .pastEnd
      | some (.mapping fields) =>
        let w := (Fields.get? fields name).getD (newTable (isArray && rest.isEmpty))
        let o ← enter w implied rest
        return ⟨.list (items.dropLast ++ [.mapping (Fields.set fields name o.value)]),
          .last :: .key name :: o.place, o.implied⟩
      | some _ => throw .notTable
    | .string s => if s = "" then throw .pastEnd else throw .notTable
    | _ => throw .notTable
where
  /-- Goes on with the rest of the names; in a header of a list, the way leads to the last item of every list. -/
  enter (w : Value) (implied : List String) (rest : List String) : Except Fault Opened := do
    if !isArray || w.isMapping then openTable isArray implied w rest
    else
      let part ← lastPart w
      let o ← openTable isArray implied part rest
      match w with
      | .list items => return ⟨.list (items.dropLast ++ [o.value]), .last :: o.place, o.implied⟩
      | _ => return ⟨w, o.place, o.implied⟩

/-! ### The lines -/

/-- How far the lines of a text have been read. -/
structure Reading where
  root : Value := .mapping []
  /-- The way to the table that is open. -/
  place : List Step := []
  /-- The tables that lie on the way to others. -/
  implied : List String := []
  /-- The text of several lines that has begun. -/
  openText : Option OpenText := none

namespace Reading

/-- Writes a value under a key of the table that is open. -/
def write (r : Reading) (key : String) (value : Value) : Except Fault Reading := do
  let (root, ()) ← changeAt (fun v => match v with
    | .mapping fields => .ok (.mapping (Fields.set fields key value), ())
    | _ => .error .notTable) r.place r.root
  return { r with root }

/-- Whether a line ends the text of several lines that it was added to. -/
def isClosing (text line : List Char) : Except Fault Bool := do
  let some first := text.head? | throw .pastEnd
  if first = '[' then
    let some last := line.getLast? | throw .pastEnd
    return last == ']'
  return 2 < line.length && line.reverse.take 3 == [first, first, first]

/-- Adds a line to the text of several lines. -/
def extend (r : Reading) (t : OpenText) (line : List Char) : Except Fault Reading := do
  let text := t.text ++ line
  if ← isClosing text line then
    let value ← readValue true text
    return { ← r.write t.key value with openText := none }
  let joined := endsInOddRun text
  return { r with openText := some ⟨t.key, if joined then text.dropLast else text ++ ['\n'], joined⟩ }

/-- Reads a line that is not part of a text. -/
def plainLine (r : Reading) (line : List Char) : Except Fault Reading := do
  match line with
  | '[' :: _ =>
    let header ← headerLine line
    let o ← openTable header.isArray r.implied r.root header.names
    return { r with root := o.value, place := o.place, implied := o.implied }
  | '\x7b' :: _ =>
    if line.getLast? ≠ some '\x7d' then throw .malformed
    let (root, ()) ← changeAt (fun v => do return (← readInline readValue line v, ())) r.place r.root
    return { r with root }
  | _ =>
    if !line.contains '=' then return r
    let (root, openText) ← changeAt (assign readValue line) r.place r.root
    return { r with root, openText }

/-- Reads a line. -/
def line (r : Reading) (line : List Char) : Except Fault Reading :=
  match r.openText with
  | none => if trim line = [] then .ok r else r.plainLine (trim line)
  | some t =>
    let line := if t.joined || !t.text.contains '\n' then trim line else line
    if line = [] ∧ t.joined then .ok r else r.extend t line

end Reading

/-- A text with every line break as a single character. -/
def unifyBreaks : List Char → List Char
  | '\r' :: '\n' :: rest => '\n' :: unifyBreaks rest
  | '\r' :: rest => '\n' :: unifyBreaks rest
  | c :: rest => c :: unifyBreaks rest
  | [] => []

/-- The table that a text is in TOML. -/
def read (text : String) : Except Fault (Fields Value) := do
  let lines ← linesOf (unifyBreaks text.toList)
  let r ← lines.foldlM Reading.line {}
  return r.root.asFields

end ApiClientGen.Toml
