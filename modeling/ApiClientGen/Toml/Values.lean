/-
Values and assignments in TOML.

The beginning of a value says what it is: a text, an array, an inline table, a time, and
else a date or a number.  An array is cut at its commas, and pieces of texts that were cut
apart are put together again; its items are all of one kind.  An assignment is cut at its
equals signs, from the first one outside of quotes on, until what stands on its right
looks like a value; its key may lead through tables.
-/
import ApiClientGen.Toml.Texts
import ApiClientGen.Toml.Times

namespace ApiClientGen.Toml

open ApiClientGen.Document ApiClientGen.Number ApiClientGen.Text

/-- Reads a value; the flag says whether a number is written by the rules. -/
abbrev ValueReader := Bool → List Char → Except Fault Value

/-- Whether a character is a quote. -/
def isQuote (c : Char) : Bool := c == '"' || c == '\''

/-- Whether two characters stand side by side in a text. -/
def hasPair (a b : Char) (s : List Char) : Bool := (s.zip (s.drop 1)).contains (a, b)

/-! ### Numbers -/

/-- Whether no zero leads a number and all its low lines stand between digits. -/
def isStrictNumber (text : List Char) : Bool :=
  let s := trim text
  match s with
  | [] => false
  | [c] => c != '_'
  | c :: d :: rest =>
    let digits := if c = '+' ∨ c = '-' then d :: rest else s
    !(c == '_' || s.getLast? == some '_' || hasPair '_' '.' s || hasPair '.' '_' s)
      && !(c == '0' && (['.', 'o', 'b', 'x'].contains d).not)
      && !((c == '+' || c == '-') && d == '0' && !rest.isEmpty && rest.head? != some '.')
      && !hasPair '_' '_' digits

/-- Zero less a number: a negative zero becomes a positive one. -/
def negated : Value → Value
  | .scalar (.int i) => .int (-i)
  | .scalar (.float x) => .scalar (.float (if x.isZero then .finite false 0 else x.neg))
  | v => v

/-- Whether the digits are those of a number with a fraction or an exponent. -/
def isFraction (s : List Char) : Bool :=
  s.contains '.' || (!s.contains 'x' && (s.contains 'e' || s.contains 'E'))

/-- Reads a number without its sign. -/
def readUnsigned (s : List Char) : Except Fault Value := do
  if isFraction s then
    if (splitAtFirst (· == '.') s).2 = some [] then throw .malformed
    if !(s.headD ' ').isDigit then throw .malformed
    let some x := readFraction? s | throw .malformed
    return .scalar (.float x)
  if lowered s = "inf".toList ∨ lowered s = "nan".toList then
    let some x := readFraction? s | throw .malformed
    return .scalar (.float x)
  match readInteger 0 s with
  | .ok i => return .int i
  | .error _ => throw .malformed

/-- Reads a number. -/
def readNumber (s : List Char) : Except Fault Value := do
  let (negative, unsigned) := takeSign s
  let v ← readUnsigned (unsigned.filter (· ≠ '_'))
  return if negative then negated v else v

/-! ### Arrays -/

/-- What a value is, for the rule that an array holds one kind of items. -/
def kindOf : Value → Nat
  | .scalar (.bool _) => 1
  | .scalar (.int _) => 2
  | .scalar (.float _) => 3
  | .scalar (.date _) | .scalar (.moment _) => 4
  | .scalar (.clock _) => 5
  | .list _ => 6
  | .mapping _ => 7
  | .scalar _ => 0

/-- Whether a piece of an array is a text with both its quotes, or no text at all. -/
def isBounded (s : List Char) : Bool :=
  s.isEmpty || (s.head? == s.getLast? && !endsInOddRun (s.drop 1).dropLast)

/-- Whether a piece begins with three quotes and does not end in them. -/
def isHalfLongText (s : List Char) : Bool :=
  match s with
  | a :: b :: c :: _ =>
    a == b && a == c && (match s.reverse with
      | _ :: y :: z :: _ => y != a && z != a
      | _ => false)
  | _ => false

/-- Whether a piece of an array of texts stands for itself. -/
def isWholeText (piece : List Char) : Bool :=
  let s := trim piece
  isBounded s && !isHalfLongText s

/-- Puts pieces together until each is a whole text; the last one is taken as it is. -/
def gatherTexts (piece : List Char) : List (List Char) → Except Fault (List (List Char))
  | [] => if isWholeText piece then .ok [piece] else .error .pastEnd
  | next :: rest =>
    if isWholeText piece then
      match rest with
      | [] => .ok [piece, next]
      | _ => do return piece :: (← gatherTexts next rest)
    else gatherTexts (piece ++ ',' :: next) rest

/-- The pieces of an array of texts. -/
def textPieces : List (List Char) → Except Fault (List (List Char))
  | [] => .ok []
  | [piece] => .ok [piece]
  | piece :: rest => gatherTexts piece rest

/-- A walk through the inline tables of an array. -/
structure TableWalk where
  /-- The tables that are complete, the last one first. -/
  found : List (List Char) := []
  /-- The characters of the table at hand, the last one first. -/
  group : List Char
  /-- How many braces are open. -/
  braces : Nat
  inText : Bool := false
  /-- Whether the walk is between two tables, and past the character behind the first. -/
  between : Option Bool := none

/-- Goes over a character of an array of inline tables. -/
def TableWalk.step (w : TableWalk) (c : Char) : TableWalk :=
  match w.between with
  | some false => { w with between := some true }
  | some true => if c = '\x7b' then { w with group := [c], between := none } else w
  | none =>
    let inText := if isQuote c then !(w.inText && !isOddRun w.group) else w.inText
    let w := { w with inText }
    if inText then { w with group := c :: w.group }
    else if c = '\x7b' then { w with group := c :: w.group, braces := w.braces + 1 }
    else if c ≠ '\x7d' then { w with group := c :: w.group }
    else if 1 < w.braces then { w with group := c :: w.group, braces := w.braces - 1 }
    else { w with found := (c :: w.group).reverse :: w.found, between := some false }

/-- The inline tables of an array. -/
def tablePieces : List Char → List (List Char)
  | [] => []
  | c :: rest =>
    let start : TableWalk := { group := [c], braces := if c = '\x7b' then 1 else 0 }
    (rest.foldl TableWalk.step start).found.reverse

/-- The pieces between the commas that stand outside of brackets. -/
def piecesOutside (depth : Int) (piece : List Char) : List Char → List (List Char)
  | [] => [piece.reverse]
  | c :: rest =>
    if c = ',' ∧ depth = 0 then piece.reverse :: piecesOutside depth [] rest
    else
      let depth := if c = '[' then depth + 1 else if c = ']' then depth - 1 else depth
      piecesOutside depth (c :: piece) rest

/-- Whether the first thing between the brackets of an array is a text. -/
def isTextArray (a : List Char) : Bool := ((trim (inner 1 a)).head?.map isQuote).getD false

/-- The pieces of an array. -/
def arrayPieces (a : List Char) : Except Fault (List (List Char)) :=
  let body := inner 1 a
  if !body.contains '[' || trim (body.takeWhile (· ≠ '[')) ≠ [] then
    if (trim body).head? = some '\x7b' then .ok (tablePieces body)
    else if isTextArray a then textPieces (splitOn ',' body)
    else .ok (splitOn ',' body)
  else .ok (piecesOutside 0 [] body)

/-- Reads an array, all of whose items are of one kind. -/
def readArray (read : List Char → Except Fault Value) (a : List Char) : Except Fault Value := do
  let pieces := ((← arrayPieces (trim a)).map trim).filter (· ≠ [])
  let items ← pieces.foldlM (fun (done : List Value) piece => do
    let v ← read piece
    match done.head? with
    | some other => if kindOf v ≠ kindOf other then throw .malformed else return v :: done
    | none => return [v]) []
  return .list items.reverse

/-! ### Assignments -/

/-- A text of several lines that has begun under a key. -/
structure OpenText where
  key : String
  text : List Char
  /-- Whether the next line is joined without a break. -/
  joined : Bool
  deriving Repr

/-- Puts pieces cut at double quotes to those cut at single ones, as long as a single quote is open. -/
def joinSingles (singles : List (List Char)) : List (List Char) → List (List Char) × List (List Char)
  | [] => (singles, [])
  | next :: rest =>
    if singles.length % 2 = 0 then
      let last := singles.getLastD [] ++ '"' :: next
      let more := if last.contains '\'' then splitOn '\'' last else [last]
      joinSingles (singles.dropLast ++ more) rest
    else (singles, next :: rest)

/-- The pieces of a line between its quotes; every second one stands inside of quotes. -/
def quoteParts (line : List Char) : List (List Char) :=
  let (singles, doubles) :=
    match splitOn '"' line with
    | first :: second :: rest =>
      if first.contains '\'' then joinSingles (splitOn '\'' first) (second :: rest)
      else ([], first :: second :: rest)
    | parts => ([], parts)
  match doubles with
  | [] => singles
  | first :: rest => singles ++ splitOn '\'' first ++ rest

/-- How many cuts there are in front of the first one outside of quotes. -/
def cutsInQuotes (cuts : List Char → Nat) : Bool → List (List Char) → Nat
  | _, [] => 0
  | quoted, part :: rest =>
    if !quoted && 0 < cuts part then 0 else cuts part + cutsInQuotes cuts (!quoted) rest

/-- Whether what stands on the right of an assignment looks like a value. -/
def looksLikeValue (right : List Char) : Bool :=
  match right with
  | [] => true
  | c :: _ =>
    [' ', '\t', '\'', '"', '[', '\x7b'].contains c
      || trim right == "true".toList || trim right == "false".toList
      || (readFraction? right).isSome || (calendar? right).isSome || (clockParts? right).isSome

/-- The two sides of an assignment, and whether its value is a number by the rules. -/
structure Sides where
  left : List Char
  right : List Char
  strict : Bool

/-- The sides of a line after so many cuts at equals signs. -/
def sidesAt (line : List Char) (cuts : Nat) : List Char × List Char :=
  let parts := splitAtMost '=' cuts line
  (List.intercalate ['='] parts.dropLast, parts.getLastD [])

/-- Cuts a line once more and again until its right side looks like a value, at most as often as given. -/
def settle (line : List Char) (cuts : Nat) (s : Sides) : Nat → Except Fault Sides
  | 0 => .error .malformed
  | fuel + 1 =>
    if looksLikeValue s.right then .ok s
    else
      let (left, right) := sidesAt line (cuts + 1)
      if right = s.right then .error .malformed
      else settle line (cuts + 1) ⟨left, right, s.strict && isStrictNumber right⟩ fuel

/-- The sides of an assignment. -/
def sides (line : List Char) : Except Fault Sides := do
  let cuts := 1 + cutsInQuotes (List.count '=') false (quoteParts line)
  let (left, right) := sidesAt line cuts
  let strict := isStrictNumber right
  let right := if (right.headD ' ').isDigit then right.filter (· ≠ '_') else right
  let s ← settle line cuts ⟨left, right, strict⟩ (line.length + 3)
  return { s with left := trim s.left, right := trim s.right }

/-- The names of a key between its dots; what stands in quotes is one name. -/
def keyParts : Bool → List (List Char) → List (List Char)
  | _, [] => []
  | true, part :: rest => part :: keyParts false rest
  | false, part :: rest => (splitOn '.' part).map trim ++ keyParts true rest

/-- The tables that a key leads through, and its last name. -/
def keyPath (key : List Char) : Except Fault (List String × String) :=
  if key.contains '.' then
    let names := if key.any isQuote then keyParts false (quoteParts key) else splitOn '.' key
    match (names.reverse.dropWhile (· = [])) with
    | [] => .error .pastEnd
    | last :: before =>
      .ok ((before.reverse.filter (· ≠ [])).map String.ofList, String.ofList (trim last))
  else
    match key.head? with
    | none => .error .pastEnd
    | some c =>
      if isQuote c ∧ key.getLast? = some c then do
        return ([], String.ofList (← unescape (inner 1 key)))
      else .ok ([], String.ofList key)

/-- The last item of an array that is not closed, put together from its pieces. -/
def lastTextPiece (pieces : List (List Char)) : Except Fault (List Char) :=
  match pieces.reverse with
  | [] => .ok []
  | last :: before => go last before
where
  go (last : List Char) : List (List Char) → Except Fault (List Char)
    | [] => .ok last
    | piece :: rest =>
      match last.head? with
      | none => .error .pastEnd
      | some c => if isQuote c then .ok last else go (piece ++ ',' :: last) rest

/-- The end of a value in which a text of several lines begins. -/
def openPart? (right : List Char) : Except Fault (Option (List Char)) := do
  if right.length < 3 then return none
  let part ←
    if right.head? = some '[' ∧ right.getLast? ≠ some ']' ∧ isTextArray right then
      lastTextPiece (splitOn ',' (trim (right.drop 1)))
    else .ok right
  let some quote := part.head? | throw .pastEnd
  if !isQuote quote then return none
  let some second := part[1]? | throw .pastEnd
  if second ≠ quote then return none
  let some third := part[2]? | throw .pastEnd
  if third ≠ quote then return none
  if 5 < part.length ∧ (part.reverse.take 3) = [quote, quote, quote] then return none
  return some part

/-- Changes the table that lies behind some names; tables that are not there are made. -/
def inTable {α : Type} (change : Value → Except Fault (Value × α)) :
    List String → Value → Except Fault (Value × α)
  | [], v => change v
  | name :: rest, .mapping fields => do
    let (v, a) ← inTable change rest ((Fields.get? fields name).getD (.mapping []))
    return (.mapping (Fields.set fields name v), a)
  | _ :: _, _ => .error .notTable

/-- Whether a key may be written into a value: it must be a table without the key. -/
def checkFree (key : String) : Value → Except Fault (Fields Value)
  | .mapping fields => if Fields.has fields key then .error .malformed else .ok fields
  | _ => .error .malformed

/-- Writes an assignment into a table; a text that goes over several lines is handed back. -/
def assign (read : ValueReader) (line : List Char) (table : Value) :
    Except Fault (Value × Option OpenText) := do
  let s ← sides line
  let (path, key) ← keyPath s.left
  inTable (fun v => do
    match ← openPart? s.right with
    | some part =>
      let _ ← checkFree key v
      if key = "" then throw .unnamedText
      let joined := endsInOddRun part
      return (v, some ⟨key, if joined then s.right.dropLast else s.right ++ ['\n'], joined⟩)
    | none =>
      let value ← read s.strict s.right
      return (.mapping (Fields.set (← checkFree key v) key value), none)) path table

/-! ### Inline tables -/

/-- Whether a value in an inline table is complete. -/
def isWholeValue (s : List Char) (first : Char) : Bool :=
  let ends (c : Char) : Bool := s.getLast? == some c
  (isQuote first && ends first) || first == '-' || first.isDigit
    || s == "true".toList || s == "false".toList
    || (first == '[' && ends ']') || (first == '\x7b' && ends '\x7d')

/-- The assignments of an inline table, put together from the pieces between its commas. -/
def inlineParts (piece : List Char) (rest : List (List Char)) : Except Fault (List (List Char)) := do
  let some right := (splitAtFirst (· == '=') piece).2 | throw .malformed
  let value := trim right
  let some first := value.head? | throw .pastEnd
  match rest with
  | [] => if isWholeValue value first then return [piece] else throw .malformed
  | next :: rest =>
    if isWholeValue value first then return piece :: (← inlineParts next rest)
    else inlineParts (piece ++ ',' :: next) rest

/-- Writes the assignments of an inline table into a table; a text of several lines ends them. -/
def readInline (read : ValueReader) (line : List Char) (table : Value) : Except Fault Value := do
  let parts ←
    match splitOn ',' (inner 1 line) with
    | [] => .ok []
    | [only] => if trim only = [] then .ok [] else inlineParts only []
    | first :: rest => inlineParts first rest
  go parts table
where
  go : List (List Char) → Value → Except Fault Value
    | [], v => .ok v
    | part :: rest, v => do
      match ← assign read part v with
      | (v, none) => go rest v
      | (v, some _) => return v

/-! ### Values -/

/-- Whether a text is a truth value but for its case. -/
def isTruthWord (s : List Char) : Bool := lowered s = "true".toList || lowered s = "false".toList

/-- Reads a value with at most so many values inside of each other. -/
def readNested : Nat → ValueReader
  | 0, _, _ => .error .malformed
  | fuel + 1, strict, s => do
    let c :: body := s | throw .malformed
    if s = "true".toList then return .bool true
    if s = "false".toList then return .bool false
    if isTruthWord s then throw .malformed
    if isQuote c then readText c body
    else if c = '[' then readArray (readNested fuel true) s
    else if c = '\x7b' then readInline (readNested fuel) s (.mapping [])
    else
      match clockParts? s with
      | some (hour, minute, second, microsecond) =>
        match Clock.check hour minute second microsecond with
        | .ok clock => return .scalar (.clock clock)
        | .error _ => throw .malformed
      | none =>
        match calendar? s with
        | some (.date d) => return .scalar (.date d)
        | some (.moment m) => return .scalar (.moment m)
        | none => if strict then readNumber s else throw .malformed

/-- Reads a value. -/
def readValue : ValueReader := fun strict s => readNested (s.length + 1) strict s

end ApiClientGen.Toml
