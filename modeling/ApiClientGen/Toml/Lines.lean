/-
The lines of a TOML text.

Before a text is read line by line it is gone through once, character by character.
Comments become spaces, the line breaks inside of an array become spaces too, and the
quotes that a text of several lines opens with swallow the break behind them.  The same
pass follows keys, headers and quotes, so that it finds the keys without a value and the
texts without an end.

A quote is weighed with the two characters in front of it, and in front of the first
character of the text stands its end: the text is looked at as a ring.
-/
import ApiClientGen.Text.Layout
import ApiClientGen.Text.Split
import ApiClientGen.Text.Table.Alphanumeric

namespace ApiClientGen.Toml

open ApiClientGen.Text

/-- Why a text cannot be read as TOML. -/
inductive Fault where
  /-- The text breaks the rules of the format. -/
  | malformed
  /-- A character or an item is asked for where there is none. -/
  | pastEnd
  /-- A value that is no table is used as one. -/
  | notTable
  /-- A table is added to a value that is no list. -/
  | notList
  /-- The number of a character is beyond all bounds. -/
  | codeOverflow
  /-- A text of several lines stands under the empty key. -/
  | unnamedText
  deriving DecidableEq, Repr

/-- Whether a text begins with an odd number of backslashes. -/
def isOddRun (s : List Char) : Bool := (s.takeWhile (· = '\\')).length % 2 == 1

/-- Whether a text ends in an odd number of backslashes. -/
def endsInOddRun (s : List Char) : Bool := isOddRun s.reverse

/-- Where a line stands with regard to its key. -/
inductive KeyState where
  /-- Behind the key, or in a line without one. -/
  | none
  /-- Inside of the key. -/
  | inside
  /-- Behind the name of the key, before the equals sign. -/
  | behind
  deriving DecidableEq, Repr

/-- The brackets of a header that is open. -/
inductive Header where
  | none
  | table
  | arrayOfTables
  deriving DecidableEq, Repr

/-- How far a text has been gone through. -/
structure Marking where
  /-- What is done, the last character first. -/
  done : List Char := []
  /-- What stands in front of the text: its end, the last character first. -/
  wrapped : List Char
  /-- How many arrays are open. -/
  depth : Int := 0
  /-- The quote of the text that is open. -/
  quote : Option Char := none
  /-- Whether the open text may go over several lines. -/
  severalLines : Bool := false
  /-- The header that is open. -/
  header : Header := .none
  /-- Whether nothing but blanks has come in this line. -/
  atStart : Bool := true
  key : KeyState := .none
  /-- Whether the key has a dot. -/
  dotted : Bool := false
  /-- Whether the rest of the line is a comment. -/
  comment : Bool := false
  deriving Repr

namespace Marking

/-- The characters in front of the next one, the nearest first. -/
def behind (m : Marking) : List Char := m.done ++ m.wrapped

/-- The marking with one more character done. -/
def push (m : Marking) (c : Char) : Marking := { m with done := c :: m.done }

/-- Whether the two characters in front are the one given. -/
def isThird (m : Marking) (c : Char) : Bool := (m.behind.take 2) == [c, c]

/-- Whether a double quote is escaped by the backslashes in front of it, or of the three quotes it ends. -/
def isEscapedQuote (m : Marking) : Bool :=
  if m.isThird '"' then isOddRun (m.behind.drop 2)
  else if m.behind.head? = some '"' then false
  else isOddRun m.behind

/-- Whether no text and no header is open. -/
def isPlain (m : Marking) : Bool := m.quote.isNone && m.header == .none

/-! ### Keys -/

/-- Goes on behind the name of a key; a dot, or a blank behind one, may start a name again. -/
def behindKey (m : Marking) (next : Option Char) : Except Fault Marking :=
  match next with
  | none => .error .pastEnd
  | some n => .ok (if !isBlank n && n != '.' then { m with key := .inside } else m)

/-- The end of a key; any other character than an equals sign is out of place. -/
def endKey (m : Marking) (c : Char) : Except Fault Marking :=
  if c = '=' then .ok { m with key := .none, dotted := false } else .error .malformed

/-- Goes over a character of a key, which is followed by another one. -/
def stepKey (m : Marking) (c : Char) (next : Option Char) : Except Fault Marking :=
  if c = '\n' then .error .malformed
  else if m.quote.isSome then
    .ok (if m.quote = some c then { m with quote := none, key := .behind } else m)
  else if m.key = .inside then
    if isBlank c then .ok { m with key := .behind }
    else if c = '.' then .ok { m with dotted := true }
    else if Table.alphanumeric.covers c.toNat || c == '_' || c == '-' then .ok m
    else if m.dotted && m.behind.head? == some '.' && (c == '"' || c == '\'') then
      .ok { m with quote := some c }
    else m.endKey c
  else if isBlank c then if m.dotted then m.behindKey next else .ok m
  else if c = '.' then { m with dotted := true }.behindKey next
  else m.endKey c

/-! ### Quotes, brackets and line breaks -/

/-- Opens or closes a text at a quote. -/
def stepQuote (m : Marking) (c : Char) : Marking :=
  if c = '\'' ∧ m.quote ≠ some '"' then
    if m.isThird c then
      { m with severalLines := !m.severalLines, quote := if m.severalLines then none else some c }
    else { m with quote := if m.quote.isSome then none else some c }
  else if c = '"' ∧ m.quote ≠ some '\'' then
    if m.isEscapedQuote then m
    else if m.isThird c then
      { m with severalLines := !m.severalLines, quote := if m.severalLines then none else some c }
    else { m with quote := if m.quote.isSome then none else some c }
  else m

/-- Opens or closes a header or an array at a bracket. -/
def stepBracket (m : Marking) (c : Char) (next : Option Char) : Marking :=
  if c = '[' ∧ m.isPlain then
    if m.atStart then { m with header := if next = some '[' then .arrayOfTables else .table }
    else { m with depth := m.depth + 1 }
  else if c = ']' ∧ m.quote.isNone then
    match m.header with
    | .table => { m with header := .none }
    | .arrayOfTables => if m.behind.head? = some ']' then { m with header := .none } else m
    | .none => { m with depth := m.depth - 1 }
  else m

/-- A line break behind two quotes inside of a text: it becomes a quote itself, and the first of three a space. -/
def swallowBreak (m : Marking) : Marking :=
  match m.done with
  | a :: b :: c :: rest =>
    if (a = '\'' ∨ a = '"') ∧ b = a then
      { m with done := a :: a :: b :: (if c = a then ' ' else c) :: rest }
    else m.push '\n'
  | _ => m.push '\n'

/-- Goes over a line break. -/
def stepBreak (m : Marking) : Except Fault Marking :=
  if m.quote.isSome || m.severalLines then
    if m.severalLines then .ok m.swallowBreak else .error .malformed
  else if m.depth ≠ 0 then .ok (m.push ' ')
  else .ok { m.push '\n' with atStart := true }

/-- Goes over the first character of a line that is not blank: a key begins unless it opens a header. -/
def stepStart (m : Marking) (c : Char) : Except Fault Marking :=
  if m.atStart ∧ c ≠ ' ' ∧ c ≠ '\t' then
    if m.header ≠ .none then .ok { m with atStart := false }
    else if c = '=' then .error .malformed
    else .ok { m with atStart := false, key := .inside }
  else .ok m

/-- Goes over a character outside of keys. -/
def stepPlain (m : Marking) (c : Char) (next : Option Char) : Except Fault Marking := do
  let m := m.stepQuote c
  if c = '#' ∧ m.isPlain then return { m with comment := true }.push ' '
  let m := m.stepBracket c next
  if c = '\n' then m.stepBreak
  else return (← m.stepStart c).push c

/-- Goes over a character, which is followed by another one unless the text ends. -/
def step (m : Marking) (c : Char) (next : Option Char) : Except Fault Marking := do
  if m.comment then
    if c = '\n' then stepBreak { m with comment := false } else return m.push ' '
  else if m.key = .none then m.stepPlain c next
  else
    let m' ← m.stepKey c next
    if m'.key = .none then m'.stepPlain c next else return m'.push c

/-- Goes over the rest of a text. -/
def run (m : Marking) : List Char → Except Fault Marking
  | [] => .ok m
  | c :: rest => do run (← m.step c rest.head?) rest

end Marking

/-- The lines of a text. -/
def linesOf (text : List Char) : Except Fault (List (List Char)) := do
  let m ← Marking.run { wrapped := text.reverse } text
  if m.key ≠ .none ∨ m.quote.isSome then throw .malformed
  return splitOn '\n' m.done.reverse

end ApiClientGen.Toml
