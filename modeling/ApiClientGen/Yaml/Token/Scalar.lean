/-
Texts of scalars.

A plain scalar goes on over spaces and line breaks as long as the next line is
indented far enough; a quoted one to its closing quote.  A single line break inside
them stands for a space, and every further one for itself.  A block scalar takes whole
lines, either as they are or folded.

Each reader walks on in the text, so the number of characters left bounds its steps.
-/
import ApiClientGen.Yaml.Cursor

namespace ApiClientGen.Yaml

open ApiClientGen.Number

/-! ### Plain scalars -/

/-- The characters that end a plain scalar inside flow collections. -/
def isFlowStop (c : Char) : Bool :=
  c == ',' || c == '?' || c == '[' || c == ']' || c == '{' || c == '}'

/-- The characters that make a colon before them a mark inside flow collections. -/
def isFlowAfterColon (c : Char) : Bool :=
  c == ',' || c == '[' || c == ']' || c == '{' || c == '}'

/-- The characters up to a space, a mark or the end of the line. -/
def plainWord (flow : Bool) : List Char → List Char
  | [] => []
  | ch :: rest =>
    let next := rest.headD '\x00'
    if isBlankOrEnd ch || (ch == ':' && (isBlankOrEnd next || (flow && isFlowAfterColon next)))
        || (flow && isFlowStop ch) then []
    else ch :: plainWord flow rest

/-- What a first line break and the breaks behind it stand for inside a scalar. -/
def foldBreaks (first : List Char) (more : List Char) : List Char :=
  if first != ['\n'] then first ++ more
  else if more.isEmpty then [' ']
  else more

/-- Spaces and line breaks behind a line break inside a plain scalar; none before a document marker. -/
def plainBreaks : Nat → List Char → Cursor → Option (List Char) × Cursor
  | 0, done, c => (some done, c)
  | fuel + 1, done, c =>
    if c.peek == ' ' then plainBreaks fuel done c.advance
    else
      let (brk, next) := c.lineBreak
      if brk.isEmpty then (some done, c)
      else if next.atDocumentMarker then (none, next)
      else plainBreaks fuel (done ++ brk) next

/-- What stands for the space behind a word, the place behind it, and whether a line ended there. -/
def plainSpaces (c : Cursor) : Option (List Char) × Cursor × Bool :=
  let (blanks, c) := c.takeWhile (· == ' ')
  let (brk, next) := c.lineBreak
  if brk.isEmpty then (some blanks, c, false)
  else if next.atDocumentMarker then (none, next, true)
  else
    let (breaks, next) := plainBreaks next.rest.length [] next
    (breaks.map (foldBreaks brk), next, true)

/-- A plain scalar indented by at least `indent`: its text, the place behind it, and whether a line ended there. -/
def plainText (flow : Bool) (indent : Int) :
    Nat → List Char → List Char → Bool → Cursor → List Char × Cursor × Bool
  | 0, done, _, lineEnded, c => (done, c, lineEnded)
  | fuel + 1, done, spaces, lineEnded, c =>
    let word := if c.peek == '#' then [] else plainWord flow c.rest
    if word.isEmpty then (done, c, lineEnded)
    else
      let text := done ++ spaces ++ word
      match plainSpaces (c.advanceBy word.length) with
      | (none, next, ended) => (text, next, ended)
      | (some blanks, next, ended) =>
        if blanks.isEmpty || next.peek == '#' || (!flow && (next.column : Int) < indent) then
          (text, next, ended)
        else plainText flow indent fuel text blanks ended next

/-! ### Quoted scalars -/

/-- The character that a short escape stands for. -/
def shortEscape? : Char → Option Char
  | '0' => some '\x00'
  | 'a' => some '\x07'
  | 'b' => some '\x08'
  | 't' => some '\t'
  | '\t' => some '\t'
  | 'n' => some '\n'
  | 'v' => some '\x0b'
  | 'f' => some '\x0c'
  | 'r' => some '\r'
  | 'e' => some '\x1b'
  | ' ' => some ' '
  | '"' => some '"'
  | '\\' => some '\\'
  | '/' => some '/'
  | 'N' => some '\x85'
  | '_' => some '\xa0'
  | 'L' => some '\u2028'
  | 'P' => some '\u2029'
  | _ => none

/-- How many hexadecimal digits the escape of a code has. -/
def escapeWidth? : Char → Option Nat
  | 'x' => some 2
  | 'u' => some 4
  | 'U' => some 8
  | _ => none

/-- The character with a code. -/
def charOfCode (n : Nat) : Except Fault Char :=
  if 0x7FFFFFFF < n then .error .codeOverflow
  else if 0x10FFFF < n then .error .codePoint
  else if 0xD800 ≤ n ∧ n < 0xE000 then .ok '\ufffd'
  else .ok (Char.ofNat n)

/-- The character that `width` hexadecimal digits stand for. -/
def codeEscape (width : Nat) (c : Cursor) : Except Fault Char :=
  let digits := c.rest.take width
  if digits.length = width ∧ digits.all isHexDigit then
    charOfCode (ofDigits 16 (digits.filterMap digitValue?))
  else .error .malformed

/-- Line breaks and the blanks around them inside a quoted scalar. -/
def quotedBreaks : Nat → List Char → Cursor → Except Fault (List Char × Cursor)
  | 0, done, c => .ok (done, c)
  | fuel + 1, done, c =>
    if c.atDocumentMarker then .error .malformed
    else
      let c := c.skipWhile fun ch => ch == ' ' || ch == '\t'
      let (brk, next) := c.lineBreak
      if brk.isEmpty then .ok (done, c) else quotedBreaks fuel (done ++ brk) next

/-- Blanks and line breaks inside a quoted scalar, as they count for its text. -/
def quotedSpaces (c : Cursor) : Except Fault (List Char × Cursor) := do
  let (blanks, c) := c.takeWhile fun ch => ch == ' ' || ch == '\t'
  if c.rest.isEmpty then throw .malformed
  let (brk, next) := c.lineBreak
  if brk.isEmpty then return (blanks, c)
  let (breaks, next) ← quotedBreaks next.rest.length [] next
  return (foldBreaks brk breaks, next)

/-- An escape behind its backslash. -/
def quotedEscape (c : Cursor) : Except Fault (List Char × Cursor) := do
  let ch := c.peek
  if c.rest.isEmpty then throw .malformed
  match shortEscape? ch with
  | some e => return ([e], c.advance)
  | none =>
    match escapeWidth? ch with
    | some width =>
      let e ← codeEscape width c.advance
      return ([e], c.advance.advanceBy width)
    | none =>
      if isBreak ch then
        let next := c.lineBreak.2
        quotedBreaks next.rest.length [] next
      else throw .malformed

/-- The text of a quoted scalar up to its closing quote; what is done stands in reverse. -/
def quotedText (double : Bool) : Nat → List Char → Cursor → Except Fault (List Char × Cursor)
  | 0, _, _ => .error .malformed
  | fuel + 1, done, c =>
    match c.rest with
    | [] => .error .malformed
    | ch :: rest =>
      if !double && ch == '\'' && rest.headD '\x00' == '\'' then
        quotedText double fuel ('\'' :: done) (c.advanceBy 2)
      else if ch == (if double then '"' else '\'') then .ok (done.reverse, c.advance)
      else if double && ch == '\\' then do
        let (part, next) ← quotedEscape c.advance
        quotedText double fuel (part.reverse ++ done) next
      else if isBlankOrEnd ch then do
        let (part, next) ← quotedSpaces c
        quotedText double fuel (part.reverse ++ done) next
      else quotedText double fuel (ch :: done) c.advance

/-! ### Block scalars -/

/-- What becomes of the line breaks at the end of a block scalar. -/
inductive Chomping where
  | clip
  | strip
  | keep
  deriving DecidableEq, Repr

/-- A chomping indicator. -/
def chomping? : Char → Option Chomping
  | '+' => some .keep
  | '-' => some .strip
  | _ => none

/-- An indentation indicator, if one stands here; zero is none. -/
def increment? (c : Cursor) : Except Fault (Option Nat × Cursor) :=
  let ch := c.peek
  if ch.isDigit then
    if ch == '0' then .error .malformed else .ok (some (ch.toNat - '0'.toNat), c.advance)
  else .ok (none, c)

/-- The indicators behind the mark of a block scalar. -/
def blockIndicators (c : Cursor) : Except Fault (Chomping × Option Nat × Cursor) := do
  let (chomping, increment, c) ← match chomping? c.peek with
    | some chomping => do
      let (increment, c) ← increment? c.advance
      pure (chomping, increment, c)
    | none => do
      let (increment, c) ← increment? c
      match increment, chomping? c.peek with
      | some _, some chomping => pure (chomping, increment, c.advance)
      | _, _ => pure (.clip, increment, c)
  if c.peek == ' ' || isBreakOrEnd c.peek then return (chomping, increment, c) else throw .malformed

/-- The breaks before the first line of a block scalar, and the widest indentation among them. -/
def blockIndentation : Nat → List Char → Nat → Cursor → List Char × Nat × Cursor
  | 0, breaks, widest, c => (breaks, widest, c)
  | fuel + 1, breaks, widest, c =>
    if c.peek == ' ' then
      let next := c.advance
      blockIndentation fuel breaks (max widest next.column) next
    else
      let (brk, next) := c.lineBreak
      if brk.isEmpty then (breaks, widest, c) else blockIndentation fuel (breaks ++ brk) widest next

/-- The place behind the spaces of a line's indentation. -/
def skipIndent (indent : Nat) : Nat → Cursor → Cursor
  | 0, c => c
  | fuel + 1, c =>
    if c.column < indent && c.peek == ' ' then skipIndent indent fuel c.advance else c

/-- The breaks of empty lines inside a block scalar. -/
def blockBreaks (indent : Nat) : Nat → List Char → Cursor → List Char × Cursor
  | 0, breaks, c => (breaks, c)
  | fuel + 1, breaks, c =>
    let c := skipIndent indent indent c
    let (brk, next) := c.lineBreak
    if brk.isEmpty then (breaks, c) else blockBreaks indent fuel (breaks ++ brk) next

/-- Whether a character is a space or a tab. -/
def isBlankChar (c : Char) : Bool := c == ' ' || c == '\t'

/-- The lines of a block scalar: the text with its last break and the empty lines behind it apart. -/
def blockLines (folded : Bool) (indent : Nat) :
    Nat → List Char → List Char → List Char → Cursor → List Char × List Char × List Char × Cursor
  | 0, text, brk, breaks, c => (text, brk, breaks, c)
  | fuel + 1, text, _, breaks, c =>
    let leading := !isBlankChar c.peek
    let (line, c) := c.takeWhile fun ch => !isBreak ch
    let text := text ++ breaks ++ line
    let (brk, c) := c.lineBreak
    let (breaks, c) := blockBreaks indent c.rest.length [] c
    if c.column = indent ∧ ¬ c.rest.isEmpty then
      let between :=
        if folded && brk == ['\n'] && leading && !isBlankChar c.peek then
          if breaks.isEmpty then [' '] else []
        else brk
      blockLines folded indent fuel (text ++ between) [] breaks c
    else (text, brk, breaks, c)

/-- A block scalar behind its mark, inside a block of the indentation given. -/
def blockText (folded : Bool) (outer : Int) (c : Cursor) : Except Fault (List Char × Cursor) := do
  let (chomping, increment, c) ← blockIndicators c
  let c ← c.skipLineRest
  let least := (outer + 1).toNat.max 1
  let (indent, breaks, c) := match increment with
    | none =>
      let (breaks, widest, c) := blockIndentation c.rest.length [] 0 c
      (max least widest, breaks, c)
    | some n =>
      let indent := least + n - 1
      let (breaks, c) := blockBreaks indent (c.rest.length + 1) [] c
      (indent, breaks, c)
  let (text, brk, breaks, c) :=
    if c.column = indent ∧ ¬ c.rest.isEmpty then
      blockLines folded indent c.rest.length [] [] breaks c
    else ([], [], breaks, c)
  return (match chomping with
    | .strip => text
    | .clip => text ++ brk
    | .keep => text ++ brk ++ breaks, c)

end ApiClientGen.Yaml
