/-
The tokens of a text.

A scanner stands at a place in the text, knows the indentation of the blocks around
it and the number of flow collections it is in, and remembers for each of these where
a key may have begun.  A colon then turns the remembered place into a key, by putting
the mark of the key in front of the tokens written since.  A place is forgotten at the
end of its line or after 1024 characters.
-/
import ApiClientGen.Yaml.Token.Scalar

namespace ApiClientGen.Yaml

open ApiClientGen.Number

/-- A place where a key may have begun. -/
structure KeyStart where
  /-- The flow collections around it. -/
  flow : Nat
  /-- How many tokens were written before it. -/
  token : Nat
  /-- Whether the text is broken if no colon follows. -/
  required : Bool
  index : Nat
  line : Nat
  column : Nat
  deriving Repr

/-- A scanner in the middle of a text. -/
structure Scanner where
  cursor : Cursor
  /-- The number of characters of the whole text. -/
  size : Nat
  flow : Nat := 0
  indent : Int := -1
  outer : List Int := []
  keyAllowed : Bool := true
  starts : List KeyStart := []
  /-- The tokens written so far, the last one first. -/
  written : List Token := []
  /-- How many tokens were written so far. -/
  count : Nat := 0

namespace Scanner

/-- Writes a token. -/
def emit (s : Scanner) (t : Token) : Scanner :=
  { s with written := t :: s.written, count := s.count + 1 }

/-- Whether the scanner is inside a flow collection. -/
def inFlow (s : Scanner) : Bool := s.flow != 0

/-! ### Keys -/

/-- Whether the place of a key lies on another line, or too far back. -/
def isStale (s : Scanner) (k : KeyStart) : Bool :=
  k.line != s.cursor.line || 1024 + k.index < s.cursor.index

/-- Forgets the places of keys that cannot be completed any more. -/
def dropStale (s : Scanner) : Except Fault Scanner :=
  if s.starts.any fun k => s.isStale k && k.required then .error .malformed
  else .ok { s with starts := s.starts.filter fun k => !s.isStale k }

/-- Forgets the place of a key in the innermost flow collection. -/
def dropStart (s : Scanner) : Except Fault Scanner :=
  if s.starts.any fun k => k.flow == s.flow && k.required then .error .malformed
  else .ok { s with starts := s.starts.filter fun k => k.flow != s.flow }

/-- Remembers that a key may begin here. -/
def saveStart (s : Scanner) : Except Fault Scanner := do
  if s.keyAllowed then
    let s ← s.dropStart
    let c := s.cursor
    return { s with
      starts := ⟨s.flow, s.count, !s.inFlow && s.indent == (c.column : Int), c.index, c.line,
        c.column⟩ :: s.starts }
  else return s

/-! ### Indentation -/

/-- Ends the blocks that are indented further than a column. -/
def unwind (s : Scanner) (column : Int) : Scanner :=
  if s.inFlow then s else go s.outer s
where
  go : List Int → Scanner → Scanner
    | [], s => s
    | around :: more, s =>
      if column < s.indent then go more { s.emit .blockEnd with indent := around, outer := more }
      else s

/-- Begins a block at a column if it is indented further; says whether it does. -/
def addIndent (s : Scanner) (column : Nat) : Bool × Scanner :=
  if s.indent < (column : Int) then
    (true, { s with outer := s.indent :: s.outer, indent := column })
  else (false, s)

/-! ### Single tokens -/

/-- Moves over some characters and writes a token for them. -/
def take (s : Scanner) (n : Nat) (t : Token) : Scanner :=
  { s with cursor := s.cursor.advanceBy n }.emit t

/-- The end of the text. -/
def streamEnd (s : Scanner) : Except Fault Scanner := do
  let s ← (s.unwind (-1)).dropStart
  return { s.emit .streamEnd with keyAllowed := false, starts := [] }

/-- A document marker. -/
def documentMarker (s : Scanner) (t : Token) : Except Fault Scanner := do
  let s ← (s.unwind (-1)).dropStart
  return { s.take 3 t with keyAllowed := false }

/-- The opening bracket of a flow collection. -/
def flowStart (s : Scanner) (t : Token) : Except Fault Scanner := do
  let s ← s.saveStart
  return { s.take 1 t with flow := s.flow + 1, keyAllowed := true }

/-- The closing bracket of a flow collection. -/
def flowEnd (s : Scanner) (t : Token) : Except Fault Scanner := do
  let s ← s.dropStart
  return { s.take 1 t with flow := s.flow - 1, keyAllowed := false }

/-- A comma inside a flow collection. -/
def flowEntry (s : Scanner) : Except Fault Scanner := do
  let s ← { s with keyAllowed := true }.dropStart
  return s.take 1 .flowEntry

/-- The mark of a sequence's entry. -/
def blockEntry (s : Scanner) : Except Fault Scanner := do
  let s ←
    if s.inFlow then pure s
    else if !s.keyAllowed then throw .malformed
    else
      let (begins, s) := s.addIndent s.cursor.column
      pure (if begins then s.emit .blockSequenceStart else s)
  let s ← { s with keyAllowed := true }.dropStart
  return s.take 1 .blockEntry

/-- The mark of a key. -/
def keyMark (s : Scanner) : Except Fault Scanner := do
  let s ←
    if s.inFlow then pure s
    else if !s.keyAllowed then throw .malformed
    else
      let (begins, s) := s.addIndent s.cursor.column
      pure (if begins then s.emit .blockMappingStart else s)
  let s ← { s with keyAllowed := !s.inFlow }.dropStart
  return s.take 1 .key

/-- Writes a token in front of those written since a place. -/
def insert (s : Scanner) (place : Nat) (t : Token) : Scanner :=
  let behind := s.count - place
  { s with
    written := s.written.take behind ++ t :: s.written.drop behind, count := s.count + 1 }

/-- The mark of a value, which may make a key of what stands before it. -/
def valueMark (s : Scanner) : Except Fault Scanner := do
  match s.starts.find? fun k => k.flow == s.flow with
  | some start =>
    let s := { s with starts := s.starts.filter fun k => k.flow != s.flow }
    let (begins, s) := if s.inFlow then (false, s) else s.addIndent start.column
    let s := s.insert start.token .key
    let s := if begins then s.insert start.token .blockMappingStart else s
    return { s.take 1 .value with keyAllowed := false }
  | none =>
    let s ←
      if s.inFlow then pure s
      else if !s.keyAllowed then throw .malformed
      else
        let (begins, s) := s.addIndent s.cursor.column
        pure (if begins then s.emit .blockMappingStart else s)
    let s ← { s with keyAllowed := !s.inFlow }.dropStart
    return s.take 1 .value

/-- The name behind the mark of an anchor or an alias. -/
def anchorName (s : Scanner) (make : String → Token) : Except Fault Scanner := do
  let s ← s.saveStart
  let (name, c) := s.cursor.advance.takeWhile isNameChar
  let ends := isBlankOrEnd c.peek || "?:,]\x7d%@\x60".toList.contains c.peek
  if name.isEmpty || !ends then throw .malformed
  return { s with cursor := c, keyAllowed := false }.emit (make (String.ofList name))

/-! ### Tags -/

/-- Whether a character may stand in the name of a tag. -/
def isUriChar (c : Char) : Bool := c.isAlphanum || "-;/?:@&=+$,_.!~*'()[]%".toList.contains c

/-- The bytes that escapes with percent signs stand for. -/
def uriEscapes : Nat → List UInt8 → Cursor → Except Fault (List UInt8 × Cursor)
  | 0, done, c => .ok (done, c)
  | fuel + 1, done, c =>
    match c.rest with
    | '%' :: a :: b :: _ =>
      if isHexDigit a && isHexDigit b then
        let byte := ofDigits 16 ([a, b].filterMap digitValue?)
        uriEscapes fuel (done ++ [UInt8.ofNat byte]) (c.advanceBy 3)
      else .error .malformed
    | '%' :: _ => .error .malformed
    | _ => .ok (done, c)

/-- The name of a tag, with its escapes taken out. -/
def uri : Nat → List Char → Cursor → Except Fault (List Char × Cursor)
  | 0, done, c => .ok (done, c)
  | fuel + 1, done, c =>
    if c.peek == '%' then do
      let (bytes, next) ← uriEscapes c.rest.length [] c
      match String.fromUTF8? ⟨bytes.toArray⟩ with
      | some text => uri fuel (done ++ text.toList) next
      | none => .error .malformed
    else if isUriChar c.peek then
      let (part, next) := c.takeWhile fun ch => isUriChar ch && ch != '%'
      uri fuel (done ++ part) next
    else .ok (done, c)

/-- The name of a tag, which is not empty. -/
def someUri (c : Cursor) : Except Fault (String × Cursor) := do
  if !isUriChar c.peek then throw .malformed
  let (name, next) ← uri c.rest.length [] c
  return (String.ofList name, next)

/-- The handle of a tag: an exclamation mark, or a name between two of them. -/
def tagHandle (c : Cursor) : Except Fault (String × Cursor) :=
  if c.peek != '!' then .error .malformed
  else if c.peekAt 1 == ' ' then .ok ("!", c.advance)
  else
    let (name, next) := c.advance.takeWhile isNameChar
    if next.peek == '!' then .ok ("!" ++ String.ofList name ++ "!", next.advance)
    else .error .malformed

/-- The handle and the name of a tag. -/
def tagParts (c : Cursor) : Except Fault ((Option String × String) × Cursor) := do
  if c.peekAt 1 == '<' then
    let (name, next) ← someUri (c.advanceBy 2)
    if next.peek != '>' then throw .malformed
    return ((none, name), next.advance)
  else if isBlankOrEnd (c.peekAt 1) then return ((none, "!"), c.advance)
  else
    let word := (c.rest.drop 1).takeWhile fun ch => ch != ' ' && !isBreakOrEnd ch
    let (handle, next) ← if word.contains '!' then tagHandle c else pure ("!", c.advance)
    let (name, next) ← someUri next
    return ((some handle, name), next)

/-- A tag. -/
def tag (s : Scanner) : Except Fault Scanner := do
  let s ← s.saveStart
  let ((handle, name), c) ← tagParts s.cursor
  if c.peek != ' ' && !isBreakOrEnd c.peek then throw .malformed
  return { s with cursor := c, keyAllowed := false }.emit (.tag handle name)

/-! ### Directives -/

/-- A number in a directive. -/
def directiveNumber (c : Cursor) : Except Fault (Nat × Cursor) := do
  let (digits, next) := c.takeWhile Char.isDigit
  if digits.isEmpty then throw .malformed
  return ((← (readInteger 10 digits).mapError .integer).toNat, next)

/-- What a directive says. -/
def directiveValue (name : String) (c : Cursor) : Except Fault (Token × Cursor) := do
  if name = "YAML" then
    let (major, c) ← directiveNumber (c.skipWhile (· == ' '))
    if c.peek != '.' then throw .malformed
    let (_, c) ← directiveNumber c.advance
    if c.peek != ' ' && !isBreakOrEnd c.peek then throw .malformed
    return (.version major, c)
  else if name = "TAG" then
    let (handle, c) ← tagHandle (c.skipWhile (· == ' '))
    if c.peek != ' ' then throw .malformed
    let (expansion, c) ← someUri (c.skipWhile (· == ' '))
    if c.peek != ' ' && !isBreakOrEnd c.peek then throw .malformed
    return (.tagHandle handle expansion, c)
  else return (.otherDirective, c.skipWhile fun ch => !isBreak ch)

/-- A directive line. -/
def directive (s : Scanner) : Except Fault Scanner := do
  let s ← (s.unwind (-1)).dropStart
  let (name, c) := s.cursor.advance.takeWhile isNameChar
  if name.isEmpty || (c.peek != ' ' && !isBreakOrEnd c.peek) then throw .malformed
  let (token, c) ← directiveValue (String.ofList name) c
  let c ← c.skipLineRest
  return { s with cursor := c, keyAllowed := false }.emit token

/-! ### Scalars -/

/-- A block scalar. -/
def blockScalar (s : Scanner) (folded : Bool) : Except Fault Scanner := do
  let s ← { s with keyAllowed := true }.dropStart
  let (text, c) ← blockText folded s.indent s.cursor.advance
  return { s with cursor := c }.emit (.scalar (String.ofList text) .quoted)

/-- A scalar between quotes. -/
def quotedScalar (s : Scanner) (double : Bool) : Except Fault Scanner := do
  let s ← s.saveStart
  let c := s.cursor.advance
  let (text, c) ← quotedText double (c.rest.length + 1) [] c
  return { s with cursor := c, keyAllowed := false }.emit (.scalar (String.ofList text) .quoted)

/-- A plain scalar. -/
def plainScalar (s : Scanner) : Except Fault Scanner := do
  let s ← s.saveStart
  let (text, c, lineEnded) :=
    plainText s.inFlow (s.indent + 1) s.cursor.rest.length [] [] false s.cursor
  return { s with cursor := c, keyAllowed := lineEnded }.emit
    (.scalar (String.ofList text) .plain)

/-- Whether a plain scalar may begin here. -/
def atPlain (s : Scanner) : Bool :=
  let ch := s.cursor.peek
  (!isBlankOrEnd ch && !"-?:,[]\x7b\x7d#&*!|>\x27\"%@\x60".toList.contains ch)
    || (!isBlankOrEnd (s.cursor.peekAt 1)
      && (ch == '-' || (!s.inFlow && (ch == '?' || ch == ':'))))

/-! ### The whole text -/

/-- The place of the next token, and whether a line ended on the way. -/
def nextPlace : Nat → Bool → Cursor → Cursor × Bool
  | 0, ended, c => (c, ended)
  | fuel + 1, ended, c =>
    let c := c.skipComment
    let (brk, next) := c.lineBreak
    if brk.isEmpty then (c, ended) else nextPlace fuel true next

/-- Moves to the next token, ending keys and blocks on the way. -/
def toNextToken (s : Scanner) : Except Fault Scanner := do
  let start := if s.cursor.index == 0 && s.cursor.peek == '\ufeff' then s.cursor.advance else s.cursor
  let (c, ended) := nextPlace (s.size + 1) false start
  let s ← { s with cursor := c, keyAllowed := s.keyAllowed || (ended && !s.inFlow) }.dropStale
  return s.unwind s.cursor.column

/-- The token that begins here. -/
def token (s : Scanner) : Except Fault Scanner :=
  let c := s.cursor
  let ch := c.peek
  let marks := isBlankOrEnd (c.peekAt 1)
  if c.rest.isEmpty then s.streamEnd
  else if ch == '%' && c.column == 0 then s.directive
  else if c.column == 0 && c.atMarker '-' then s.documentMarker .documentStart
  else if c.column == 0 && c.atMarker '.' then s.documentMarker .documentEnd
  else if ch == '[' then s.flowStart .flowSequenceStart
  else if ch == '{' then s.flowStart .flowMappingStart
  else if ch == ']' then s.flowEnd .flowSequenceEnd
  else if ch == '}' then s.flowEnd .flowMappingEnd
  else if ch == ',' then s.flowEntry
  else if ch == '-' && marks then s.blockEntry
  else if ch == '?' && (s.inFlow || marks) then s.keyMark
  else if ch == ':' && (s.inFlow || marks) then s.valueMark
  else if ch == '*' then s.anchorName .alias
  else if ch == '&' then s.anchorName .anchor
  else if ch == '!' then s.tag
  else if ch == '|' && !s.inFlow then s.blockScalar false
  else if ch == '>' && !s.inFlow then s.blockScalar true
  else if ch == '\'' then s.quotedScalar false
  else if ch == '"' then s.quotedScalar true
  else if s.atPlain then s.plainScalar
  else .error .malformed

/-- The next token, with the tokens that its indentation calls for. -/
def step (s : Scanner) : Except Fault Scanner := do (← s.toNextToken).token

/--
The tokens before a fault.  A token that a key may begin with is not read before it is known
whether one does, so that the fault comes in front of it and of all behind it.
-/
def brokenBy (s : Scanner) (fault : Fault) : List Token :=
  let place := (s.starts.filter fun k => !s.isStale k).foldl (fun n k => min n k.token) s.count
  (s.written.drop (s.count - place)).reverse ++ [.broken fault]

/-- All tokens from here on; every token but the last uses up at least one character. -/
def run : Nat → Scanner → List Token
  | 0, s => s.brokenBy .malformed
  | fuel + 1, s =>
    match s.step with
    | .error fault => s.brokenBy fault
    | .ok next =>
      if next.written.head? = some .streamEnd then next.written.reverse else run fuel next

end Scanner

/-- The tokens of a text. -/
def tokens (text : List Char) : List Token :=
  if text.all isAllowed then
    Scanner.run (text.length + 2) { cursor := { rest := text }, size := text.length }
  else [.broken .malformed]

end ApiClientGen.Yaml
