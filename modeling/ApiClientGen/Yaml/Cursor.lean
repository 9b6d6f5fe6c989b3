/-
A place in YAML text.

The cursor holds the text that is still to come and where it stands: characters from
the start, lines, and columns in the line.  A byte order mark takes no column.  Past
the end of the text the cursor shows the null character, which no text holds.
-/
import ApiClientGen.Yaml.Token

namespace ApiClientGen.Yaml

/-- Whether a character ends a line. -/
def isBreak (c : Char) : Bool :=
  c == '\n' || c == '\r' || c == '\x85' || c == '\u2028' || c == '\u2029'

/-- Whether a line ends here: at a line break or at the end of the text. -/
def isBreakOrEnd (c : Char) : Bool := c == '\x00' || isBreak c

/-- Whether a word ends here: at a space, a tab, a line break or the end of the text. -/
def isBlankOrEnd (c : Char) : Bool := c == ' ' || c == '\t' || isBreakOrEnd c

/-- Whether YAML text may hold the character. -/
def isAllowed (c : Char) : Bool :=
  let n := c.toNat
  n == 9 || n == 10 || n == 13 || (32 ≤ n && n ≤ 126) || n == 0x85
    || (0xA0 ≤ n && n ≤ 0xD7FF) || (0xE000 ≤ n && n ≤ 0xFFFD) || 0x10000 ≤ n

/-- Whether a character may stand in the name of an anchor or a directive. -/
def isNameChar (c : Char) : Bool := c.isAlphanum || c == '-' || c == '_'

/-- A place in a text, and the text from there on. -/
structure Cursor where
  rest : List Char
  index : Nat := 0
  line : Nat := 0
  column : Nat := 0
  deriving Repr

namespace Cursor

/-- The next character. -/
def peek (c : Cursor) : Char := c.rest.headD '\x00'

/-- The character `n` places further on. -/
def peekAt (c : Cursor) (n : Nat) : Char := (c.rest.drop n).headD '\x00'

/-- Moves over one character. -/
def advance (c : Cursor) : Cursor :=
  match c.rest with
  | [] => c
  | ch :: rest =>
    let next := { c with rest, index := c.index + 1 }
    if (isBreak ch && ch != '\r') || (ch == '\r' && rest.headD '\x00' != '\n') then
      { next with line := c.line + 1, column := 0 }
    else if ch == '\ufeff' then next
    else { next with column := c.column + 1 }

/-- Moves over `n` characters. -/
def advanceBy (c : Cursor) : Nat → Cursor
  | 0 => c
  | n + 1 => (c.advance).advanceBy n

/-- The characters for which `p` holds, and the place behind them. -/
def takeWhile (c : Cursor) (p : Char → Bool) : List Char × Cursor :=
  let taken := c.rest.takeWhile p
  (taken, c.advanceBy taken.length)

/-- The place behind the characters for which `p` holds. -/
def skipWhile (c : Cursor) (p : Char → Bool) : Cursor := (c.takeWhile p).2

/-- Moves over a line break and says what it stands for; elsewhere stays and says nothing. -/
def lineBreak (c : Cursor) : List Char × Cursor :=
  match c.rest with
  | '\r' :: '\n' :: _ => (['\n'], c.advanceBy 2)
  | ch :: _ =>
    if ch == '\u2028' || ch == '\u2029' then ([ch], c.advance)
    else if isBreak ch then (['\n'], c.advance)
    else ([], c)
  | [] => ([], c)

/-- Whether a document marker stands here: three equal characters and the end of a word. -/
def atMarker (c : Cursor) (mark : Char) : Bool :=
  [mark, mark, mark].isPrefixOf c.rest && isBlankOrEnd (c.peekAt 3)

/-- Whether one of the two document markers stands here. -/
def atDocumentMarker (c : Cursor) : Bool := c.atMarker '-' || c.atMarker '.'

/-- The place behind the spaces and the comment that may stand at the end of a line. -/
def skipComment (c : Cursor) : Cursor :=
  let c := c.skipWhile (· == ' ')
  if c.peek == '#' then c.skipWhile (fun ch => !isBreak ch) else c

/-- The place behind the rest of a line that holds nothing but spaces and a comment. -/
def skipLineRest (c : Cursor) : Except Fault Cursor :=
  let c := c.skipComment
  if isBreakOrEnd c.peek then .ok c.lineBreak.2 else .error .malformed

end Cursor

end ApiClientGen.Yaml
