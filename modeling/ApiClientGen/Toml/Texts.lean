/-
Texts in TOML.

A text stands between quotes, one or three on each side.  Between double quotes a
backslash escapes the character behind it, and four or eight digits behind `\u` or `\U`
stand for the character with that number.  The numbers are put in first, from left to
right, and the other escapes are read from the result.
-/
import ApiClientGen.Document.Value
import ApiClientGen.Number.Reading
import ApiClientGen.Toml.Lines

namespace ApiClientGen.Toml

open ApiClientGen.Document ApiClientGen.Number ApiClientGen.Text

/-- What stands between so many characters at both ends. -/
def inner (margin : Nat) (s : List Char) : List Char := (s.drop margin).take (s.length - 2 * margin)

/-! ### The end of a text -/

/-- Whether a text has been closed, and how many empty pieces have come between quotes. -/
structure Closing where
  closed : Bool := false
  empties : Nat := 0

/-- Goes over a piece between two quotes; nothing may follow a text that is closed. -/
def Closing.step (triple : Bool) (s : Closing) (piece : List Char) : Except Fault Closing :=
  if piece = [] then
    .ok (if triple then { s with empties := s.empties + 1 } else { s with closed := true })
  else if endsInOddRun piece then .ok s
  else if s.closed then .error .malformed
  else if !triple || 1 < s.empties then .ok { s with closed := true }
  else .ok { s with empties := 0 }

/-- Checks that nothing stands behind the text that begins with a quote. -/
def checkClosed (quote : Char) (body : List Char) : Except Fault Unit := do
  let pieces := splitOn quote body
  match pieces with
  | [] :: [] :: rest => let _ ← rest.foldlM (Closing.step true) {}
  | _ => let _ ← pieces.foldlM (Closing.step false) {}

/-! ### Escapes -/

/-- The character that a letter behind a backslash stands for. -/
def escapeOf? : Char → Option Char
  | '0' => some '\x00'
  | 'b' => some '\x08'
  | 'f' => some '\x0c'
  | 'n' => some '\n'
  | 'r' => some '\r'
  | 't' => some '\t'
  | '"' => some '"'
  | _ => none

/-- Whether a letter marks the number of a character. -/
def isCodeMark (c : Char) : Bool := c == 'u' || c == 'U'

/-- Checks what stands behind the backslashes of a text; behind two of them anything may. -/
def checkEscapes : Bool → List (List Char) → Except Fault Unit
  | _, [] => .ok ()
  | doubled, [] :: rest => checkEscapes (!doubled) rest
  | doubled, (c :: _) :: rest =>
    if (escapeOf? c).isSome || isCodeMark c || doubled then checkEscapes false rest
    else .error .malformed

/-- The character with a number in hexadecimal digits. -/
def characterOf (digits : List Char) : Except Fault Char := do
  let ds := lowered digits
  if !ds.all fun c => c.isDigit || ('a' ≤ c && c ≤ 'f') then throw .malformed
  let some first := ds.head? | throw .pastEnd
  if first = 'd' then
    let some second := ds[1]? | throw .pastEnd
    if !('0' ≤ second && second ≤ '7') then throw .malformed
  let code := ofDigits 16 (ds.filterMap digitValue?)
  if 0x7fffffff < code then throw .codeOverflow
  if h : code.isValidChar then return Char.ofNatAux code h
  throw .malformed

/-- Puts characters in for their numbers; the flag says that the next mark is escaped. -/
def putCharacters (mark : Char) (width : Nat) : Bool → List Char → List (List Char) →
    Except Fault (List Char)
  | _, done, [] => .ok done
  | true, done, piece :: rest =>
    putCharacters mark width (endsInOddRun piece) (done ++ '\\' :: mark :: piece) rest
  | false, done, piece :: rest => do
    let c ← characterOf (piece.take width)
    putCharacters mark width false (done ++ c :: piece.drop width) rest

/-- The text with the characters put in whose numbers stand behind a mark. -/
def withCharacters (mark : Char) (width : Nat) (s : List Char) : Except Fault (List Char) :=
  match splitOnPair '\\' mark s with
  | [] => .ok s
  | first :: rest => putCharacters mark width (endsInOddRun first) first rest

/-- The text with its escapes read; a mark without a number stays. -/
def unescape : List Char → Except Fault (List Char)
  | '\\' :: c :: rest =>
    match escapeOf? c with
    | some e => do return e :: (← unescape rest)
    | none =>
      if c = '\\' then do return '\\' :: (← unescape rest)
      else if isCodeMark c then do return '\\' :: c :: (← unescape rest)
      else .error .malformed
  | c :: rest => do return c :: (← unescape rest)
  | [] => .ok []

/-! ### Texts -/

/-- The text without its quotes, one or three on each side. -/
def withoutQuotes (quote : Char) (s : List Char) : List Char :=
  if s[1]? = some quote ∧ (s.length < 3 ∨ s[1]? = s[2]?) then inner 1 (inner 2 s) else inner 1 s

/-- The text with all its escapes read. -/
def withoutEscapes (s : List Char) : Except Fault (List Char) := do
  checkEscapes false ((splitOn '\\' s).drop 1)
  unescape (← withCharacters 'U' 8 (← withCharacters 'u' 4 s))

/-- Reads a text that begins with a quote. -/
def readText (quote : Char) (body : List Char) : Except Fault Value := do
  checkClosed quote body
  let whole := quote :: body
  let plain ← if quote = '"' then withoutEscapes whole else .ok whole
  return .string (String.ofList (withoutQuotes quote plain))

end ApiClientGen.Toml
