/-
Reading JSON text.

A text holds one value with blanks around it.  Numbers with a fraction or an exponent
are fractional numbers, all others integers without bounds; the names of the special
numbers are accepted; texts hold no control characters.  A key that comes twice keeps
its first place and takes its last value.

The reader goes down one level of nesting at a time and refuses texts nested deeper
than a fixed number of levels, which is what its recursion is on.  Along a list or a
mapping it goes on as long as text is used up.
-/
import ApiClientGen.Document.Value
import ApiClientGen.Number.Reading

namespace ApiClientGen.Json

open ApiClientGen.Document ApiClientGen.Number

/-- Why a text cannot be read. -/
inductive Fault where
  /-- The text is not JSON. -/
  | malformed
  /-- An integer cannot be taken over. -/
  | integer (fault : IntegerFault)
  /-- The nesting exhausts the reader. -/
  | tooDeep
  deriving DecidableEq, Repr

/-- How many levels of nesting the reader goes down. -/
def levelLimit : Nat := 990

/-- Whether a character may stand between values. -/
def isSpace (c : Char) : Bool := c == ' ' || c == '\t' || c == '\n' || c == '\r'

/-- The text behind its leading spaces. -/
def skipSpaces (s : List Char) : List Char := s.dropWhile isSpace

/-! ### Texts -/

/-- The value of four hexadecimal digits. -/
def hex4? (a b c d : Char) : Option Nat := do
  let digit (x : Char) : Option Nat :=
    if x.isDigit ∨ ('a' ≤ x ∧ x ≤ 'f') ∨ ('A' ≤ x ∧ x ≤ 'F') then digitValue? x else none
  return ofDigits 16 [← digit a, ← digit b, ← digit c, ← digit d]

/-- The character that a short escape stands for. -/
def shortEscape? : Char → Option Char
  | '"' => some '"'
  | '\\' => some '\\'
  | '/' => some '/'
  | 'b' => some '\x08'
  | 'f' => some '\x0c'
  | 'n' => some '\n'
  | 'r' => some '\r'
  | 't' => some '\t'
  | _ => none

/-- The character of a code unit; half of a pair by itself is no character. -/
def charOfUnit (n : Nat) : Char :=
  if 0xD800 ≤ n ∧ n < 0xE000 then '\ufffd' else Char.ofNat n

/-- The second half of a pair of code units, if the text goes on with one. -/
def lowHalf? : List Char → Option (Nat × List Char)
  | '\\' :: 'u' :: a :: b :: c :: d :: rest =>
    match hex4? a b c d with
    | some n => if 0xDC00 ≤ n ∧ n < 0xE000 then some (n, rest) else none
    | none => none
  | _ => none

/-- The second half of a pair is shorter text. -/
theorem lowHalf?_length {s rest : List Char} {n : Nat} (h : lowHalf? s = some (n, rest)) :
    rest.length < s.length := by
  unfold lowHalf? at h
  split at h
  · split at h
    · split at h
      · cases h; simp only [List.length_cons]; omega
      · cases h
    · cases h
  · cases h

/-- The characters up to the closing quote, and the text behind it. -/
def quotedRest (done : List Char) (s : List Char) : Except Fault (String × List Char) :=
  match s with
  | [] => .error .malformed
  | '"' :: rest => .ok (String.ofList done.reverse, rest)
  | '\\' :: 'u' :: a :: b :: c :: d :: rest =>
    match hex4? a b c d with
    | none => .error .malformed
    | some n =>
      match h : lowHalf? rest with
      | some (low, more) =>
        if 0xD800 ≤ n ∧ n < 0xDC00 then
          quotedRest (Char.ofNat (0x10000 + (n - 0xD800) * 0x400 + (low - 0xDC00)) :: done) more
        else quotedRest (charOfUnit n :: done) rest
      | none => quotedRest (charOfUnit n :: done) rest
  | '\\' :: e :: rest =>
    match shortEscape? e with
    | some c => quotedRest (c :: done) rest
    | none => .error .malformed
  | c :: rest => if c.toNat < 32 ∨ c = '\\' then .error .malformed else quotedRest (c :: done) rest
termination_by s.length
decreasing_by
  all_goals simp only [List.length_cons]
  · have := lowHalf?_length h; omega
  all_goals omega

/-! ### Numbers -/

/-- The digits that a text begins with. -/
def leadingDigits (s : List Char) : List Char × List Char :=
  (s.takeWhile Char.isDigit, s.dropWhile Char.isDigit)

/-- The digits behind a point, if the text goes on with a fraction. -/
def fractionPart (s : List Char) : List Char × List Char :=
  match s with
  | '.' :: rest =>
    let (digits, more) := leadingDigits rest
    if digits.isEmpty then ([], s) else (digits, more)
  | _ => ([], s)

/-- The exponent, if the text goes on with one. -/
def exponentPart (s : List Char) : Option Int × List Char :=
  match s with
  | e :: rest =>
    if e = 'e' ∨ e = 'E' then
      let (negative, unsigned) := takeSign rest
      let (digits, more) := leadingDigits unsigned
      if digits.isEmpty then (none, s)
      else
        let n := ofDigits 10 (digits.filterMap decimalDigit?)
        (some (if negative then -(n : Int) else n), more)
    else (none, s)
  | [] => (none, [])

/-- Whether a text begins with a minus sign, and what follows it. -/
def takeMinus : List Char → Bool × List Char
  | '-' :: rest => (true, rest)
  | s => (false, s)

/-- The digits in front of the point; behind a zero there are no others. -/
def wholePart : List Char → List Char × List Char
  | '0' :: rest => (['0'], rest)
  | s => leadingDigits s

/-- A number: an integer, or a fractional one if it has a fraction or an exponent. -/
def number (s : List Char) : Except Fault (Value × List Char) :=
  let (negative, unsigned) := takeMinus s
  let (whole, afterWhole) := wholePart unsigned
  if whole.isEmpty then .error .malformed
  else
    let (fraction, afterFraction) := fractionPart afterWhole
    let (exponent, rest) := exponentPart afterFraction
    if fraction.isEmpty ∧ exponent.isNone then
      match readInteger 10 (if negative then '-' :: whole else whole) with
      | .ok i => .ok (.int i, rest)
      | .error fault => .error (.integer fault)
    else
      let digits := ofDigits 10 ((whole ++ fraction).filterMap decimalDigit?)
      .ok (.scalar (.float (.ofDecimal negative digits (exponent.getD 0 - fraction.length))), rest)

/-! ### Values -/

/-- The text behind a word that it begins with. -/
def afterWord? (word : String) (s : List Char) : Option (List Char) :=
  if word.toList.isPrefixOf s then some (s.drop word.length) else none

/-- The words that stand for values. -/
def wordValues : List (String × Value) := [
  ("null", .null), ("true", .bool true), ("false", .bool false),
  ("NaN", .scalar (.float .nan)), ("Infinity", .scalar (.float (.infinite false))),
  ("-Infinity", .scalar (.float (.infinite true)))]

/-- A value that holds no other values. -/
def leaf (s : List Char) : Except Fault (Value × List Char) :=
  match s with
  | '"' :: rest => do
    let (text, more) ← quotedRest [] rest
    return (.string text, more)
  | _ =>
    match wordValues.findSome? fun w => (afterWord? w.1 s).map fun rest => (w.2, rest) with
    | some found => .ok found
    | none => number s

/-- The items of a list up to its closing bracket. -/
def items (value : List Char → Except Fault (Value × List Char)) (done : List Value)
    (s : List Char) : Except Fault (Value × List Char) := do
  let (v, afterValue) ← value s
  match skipSpaces afterValue with
  | ']' :: rest => .ok (.list (v :: done).reverse, rest)
  | ',' :: rest =>
    if (skipSpaces rest).length < s.length then items value (v :: done) (skipSpaces rest)
    else .error .malformed
  | _ => .error .malformed
termination_by s.length

/-- The fields of a mapping up to its closing brace. -/
def fields (value : List Char → Except Fault (Value × List Char)) (done : Fields Value)
    (s : List Char) : Except Fault (Value × List Char) := do
  match s with
  | '"' :: afterQuote =>
    let (key, afterKey) ← quotedRest [] afterQuote
    match skipSpaces afterKey with
    | ':' :: afterColon =>
      let (v, afterValue) ← value (skipSpaces afterColon)
      match skipSpaces afterValue with
      | '}' :: rest => .ok (.mapping (done.set key v), rest)
      | ',' :: rest =>
        if (skipSpaces rest).length < afterQuote.length then
          fields value (done.set key v) (skipSpaces rest)
        else .error .malformed
      | _ => .error .malformed
    | _ => .error .malformed
  | _ => .error .malformed
termination_by s.length
decreasing_by simp only [List.length_cons]; omega

/-- One value, going down at most the levels given. -/
def value : Nat → List Char → Except Fault (Value × List Char)
  | 0, '[' :: _ | 0, '{' :: _ => .error .tooDeep
  | level + 1, '[' :: rest =>
    match skipSpaces rest with
    | ']' :: more => .ok (.list [], more)
    | inner => items (value level) [] inner
  | level + 1, '{' :: rest =>
    match skipSpaces rest with
    | '}' :: more => .ok (.mapping [], more)
    | inner => fields (value level) [] inner
  | _, s => leaf s

/-- The value of a whole text. -/
def read (text : String) : Except Fault Value := do
  let (v, rest) ← value levelLimit (skipSpaces text.toList)
  if (skipSpaces rest).isEmpty then return v else throw .malformed

end ApiClientGen.Json
