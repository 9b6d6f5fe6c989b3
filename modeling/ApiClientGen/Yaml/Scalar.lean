/-
What scalars stand for.

The text of a scalar without a tag decides by its shape whether it is null, a truth
value, an integer, a fractional number, a timestamp, one of the two special keys, or a
text.  A tag takes the place of that decision; the text must then be one of its kind.
Integers may be binary, octal with a leading zero, hexadecimal or written to base
sixty with colons, and low lines in numbers count for nothing.

Tags may also ask for a set, for an ordered mapping or for a list of pairs.  Documents have
no values of these three kinds, only mappings, lists and scalars, and a text with such a tag
is refused as malformed here, as one with a tag that nobody knows.
-/
import ApiClientGen.Document.Value
import ApiClientGen.Text.Split
import ApiClientGen.Yaml.Node

namespace ApiClientGen.Yaml

open ApiClientGen.Document ApiClientGen.Number

/-- The kinds of values that a tag can ask for. -/
inductive Kind where
  | null
  | bool
  | int
  | float
  | timestamp
  | binary
  | text
  | sequence
  | mapping
  /-- The key whose value is merged into the mapping. -/
  | merge
  /-- The key that names a mapping's own value. -/
  | value
  /-- None of these; sets, ordered mappings and lists of pairs count as such. -/
  | unknown
  deriving DecidableEq, Repr

/-! ### Shapes of plain scalars -/

/-- Digits and low lines behind a first digit. -/
def isSpacedNumber : List Char → Bool
  | [] => false
  | c :: rest => c.isDigit && rest.all fun d => d.isDigit || d == '_'

/-- A number below sixty, in one or two digits. -/
def isSixtieth : List Char → Bool
  | [d] => d.isDigit
  | [t, d] => '0' ≤ t && t ≤ '5' && d.isDigit
  | _ => false

/-- A number to base sixty: at least two parts between colons. -/
def isSexagesimal (s : List Char) : Bool :=
  match Text.splitOn ':' s with
  | first :: second :: more => isSpacedNumber first && (second :: more).all isSixtieth
  | _ => false

/-- Whether all characters satisfy `p`, and there is one. -/
def allSome (p : Char → Bool) (s : List Char) : Bool := !s.isEmpty && s.all p

/-- The shape of an integer. -/
def isIntegerShape (s : List Char) : Bool :=
  let body := (takeSign s).2
  match body with
  | ['0'] => true
  | '0' :: 'b' :: rest => allSome (fun c => c == '0' || c == '1' || c == '_') rest
  | '0' :: 'x' :: rest => allSome (fun c => isHexDigit c || c == '_') rest
  | '0' :: rest => allSome (fun c => ('0' ≤ c && c ≤ '7') || c == '_') rest
  | _ => isSpacedNumber body || isSexagesimal body

/-- An exponent with its sign, or nothing. -/
def isExponentShape : List Char → Bool
  | [] => true
  | e :: sign :: digits =>
    (e == 'e' || e == 'E') && (sign == '+' || sign == '-') && allSome Char.isDigit digits
  | _ => false

/-- Digits and low lines, and an exponent behind them. -/
def isFractionTail (s : List Char) : Bool :=
  isExponentShape (s.dropWhile fun c => c.isDigit || c == '_')

/-- The shape of a fractional number. -/
def isFractionShape (s : List Char) : Bool :=
  let (_, body) := takeSign s
  let named := body == ".inf".toList || body == ".Inf".toList || body == ".INF".toList
  match s with
  | '.' :: rest =>
    named || rest == "nan".toList || rest == "NaN".toList || rest == "NAN".toList
      || ((rest.headD 'x').isDigit && isFractionTail rest)
  | _ =>
    match splitAtFirst (· == '.') body with
    | (whole, some tail) =>
      named || (isSpacedNumber whole && isFractionTail tail)
        || (isSexagesimal whole && tail.all fun c => c.isDigit || c == '_')
    | (_, none) => false

/-- The parts of a timestamp. -/
structure Timestamp where
  year : Nat
  month : Nat
  day : Nat
  clock : Option (Nat × Nat × Nat × List Char)
  /-- The offset in minutes; a capital Z is none at all. -/
  zone : Option Int
  /-- Whether month and day are written with two digits each. -/
  wide : Bool

/-- Between `least` and `most` digits at the beginning of a text. -/
def someDigits? (least most : Nat) (s : List Char) : Option (List Char × List Char) :=
  let digits := (s.take most).takeWhile Char.isDigit
  if least ≤ digits.length then some (digits, s.drop digits.length) else none

/-- The text behind a character. -/
def expect? (c : Char) : List Char → Option (List Char)
  | d :: rest => if d = c then some rest else none
  | [] => none

/-- The number that decimal digits stand for. -/
def digitsValue (ds : List Char) : Nat := ofDigits 10 (ds.filterMap digitValue?)

/-- The zone at the end of a timestamp; nothing there means no zone. -/
def zone? (s : List Char) : Option (Option Int) :=
  if s.isEmpty then some none
  else
    match s.dropWhile isBlankChar with
    | ['Z'] => some (some 0)
    | sign :: rest => do
      if sign ≠ '+' ∧ sign ≠ '-' then none
      let (hours, rest) ← someDigits? 1 2 rest
      let minutes ← match rest with
        | [] => some 0
        | ':' :: more => do
          let (digits, rest) ← someDigits? 2 2 more
          if rest.isEmpty then some (digitsValue digits) else none
        | _ => none
      let total := digitsValue hours * 60 + minutes
      return some (if sign = '-' then -(total : Int) else total)
    | [] => none

/-- The parts of a timestamp, if the text has the shape of one. -/
def timestamp? (s : List Char) : Option Timestamp := do
  let (year, rest) ← someDigits? 4 4 s
  let (month, rest) ← someDigits? 1 2 (← expect? '-' rest)
  let (day, rest) ← someDigits? 1 2 (← expect? '-' rest)
  let wide := month.length == 2 && day.length == 2
  let date : Timestamp :=
    ⟨digitsValue year, digitsValue month, digitsValue day, none, none, wide⟩
  if rest.isEmpty then return date
  let rest ← match rest with
    | 'T' :: more => some more
    | 't' :: more => some more
    | c :: more => if isBlankChar c then some (more.dropWhile isBlankChar) else none
    | [] => none
  let (hour, rest) ← someDigits? 1 2 rest
  let (minute, rest) ← someDigits? 2 2 (← expect? ':' rest)
  let (second, rest) ← someDigits? 2 2 (← expect? ':' rest)
  let (fraction, rest) := match rest with
    | '.' :: more => (more.takeWhile Char.isDigit, more.dropWhile Char.isDigit)
    | _ => ([], rest)
  let zone ← zone? rest
  return { date with
    clock := some (digitsValue hour, digitsValue minute, digitsValue second, fraction), zone }

/-- The kind of a plain scalar, by its shape. -/
def shapeKind (text : List Char) : Kind :=
  let s := if text.getLast? = some '\n' then text.dropLast else text
  let word := String.ofList s
  if ["yes", "Yes", "YES", "no", "No", "NO", "true", "True", "TRUE", "false", "False", "FALSE",
      "on", "On", "ON", "off", "Off", "OFF"].contains word then .bool
  else if isFractionShape s then .float
  else if isIntegerShape s then .int
  else if word = "<<" then .merge
  else if text.isEmpty || ["~", "null", "Null", "NULL"].contains word then .null
  else if (timestamp? s).any fun t => t.clock.isSome || t.wide then .timestamp
  else if word = "=" then .value
  else if ["!", "&", "*"].contains word then .unknown
  else .text

/-- The kind that a tag asks for, if documents have values of it. -/
def namedKind (name : String) : Kind :=
  match Text.textAfter? "tag:yaml.org,2002:" name with
  | some "null" => .null
  | some "bool" => .bool
  | some "int" => .int
  | some "float" => .float
  | some "timestamp" => .timestamp
  | some "binary" => .binary
  | some "str" => .text
  | some "seq" => .sequence
  | some "map" => .mapping
  | some "merge" => .merge
  | some "value" => .value
  | _ => .unknown

/-- The kind of a scalar. -/
def Tag.scalarKind (tag : Tag) (text : String) : Kind :=
  match tag with
  | .implicit => shapeKind text.toList
  | .text => .text
  | .explicit name => namedKind name

/-! ### Values -/

/-- An integer read to a base. -/
def integerOf (base : Nat) (s : List Char) : Except Fault Int :=
  (readInteger base s).mapError .integer

/-- The number that parts to base sixty stand for, the least part last. -/
def sexagesimal (parts : List Int) : Int := parts.foldl (fun n d => n * 60 + d) 0

/-- An integer without its sign. -/
def magnitude (s : List Char) : Except Fault Int :=
  match s with
  | [] => .error .emptyNumber
  | ['0'] => .ok 0
  | '0' :: 'b' :: rest => integerOf 2 rest
  | '0' :: 'x' :: rest => integerOf 16 rest
  | '0' :: _ => integerOf 8 s
  | _ =>
    if s.contains ':' then (sexagesimal ·) <$> (Text.splitOn ':' s).mapM (integerOf 10)
    else integerOf 10 s

/-- The integer that a scalar stands for. -/
def integer (s : List Char) : Except Fault Int :=
  let s := s.filter (· != '_')
  if s.isEmpty then .error .emptyNumber
  else
    let (negative, body) := takeSign s
    (fun n => if negative then -n else n) <$> magnitude body

/-- A part of a fractional number. -/
def fractionOf (s : List Char) : Except Fault Binary64 :=
  match readFraction? s with
  | some x => .ok x
  | none => .error (.fraction (String.ofList s))

/-- The first power of two that is beyond all fractional numbers. -/
@[irreducible]
def fractionBound : Nat := Nat.pow 2 1024

/--
The sum of parts to base sixty, the least part first, rounded at every step; a part that counts
for more than any number is refused, whatever it is.
-/
def sexagesimalSum : Nat → List Binary64 → Binary64 → Except Fault Binary64
  | _, [], total => .ok total
  | base, d :: rest, total =>
    if fractionBound ≤ base then .error .tooManyParts
    else sexagesimalSum (base * 60) rest (total.add (d.mulNat base))

/-- The fractional number that a scalar stands for. -/
def fraction (s : List Char) : Except Fault Binary64 := do
  let s := lowered (s.filter (· != '_'))
  if s.isEmpty then throw .emptyNumber
  let (negative, body) := takeSign s
  let signed (x : Binary64) : Binary64 := if negative then x.neg else x
  if body = ".inf".toList then return .infinite negative
  else if body = ".nan".toList then return .nan
  else if body.contains ':' then
    let parts ← (Text.splitOn ':' body).mapM fractionOf
    return signed (← sexagesimalSum 1 parts.reverse (.finite false 0))
  else return signed (← fractionOf body)

/-- The truth value that a scalar stands for. -/
def truthValue (s : List Char) : Except Fault Bool :=
  let word := String.ofList (lowered s)
  if ["yes", "true", "on"].contains word then .ok true
  else if ["no", "false", "off"].contains word then .ok false
  else .error .truthValue

/-- The microseconds that the digits behind the point stand for. -/
def microseconds (digits : List Char) : Nat :=
  let six := digits.take 6
  digitsValue (six ++ List.replicate (6 - six.length) '0')

/-- The date or the moment that a scalar stands for. -/
def timestamp (s : List Char) : Except Fault Scalar :=
  let s := if s.getLast? = some '\n' then s.dropLast else s
  match timestamp? s with
  | none => .error .timestamp
  | some t =>
    let result : Except CalendarFault Scalar := do
      match t.clock with
      | none => return .date (← Date.check t.year t.month t.day)
      | some (hour, minute, second, fraction) =>
        if let some offset := t.zone then
          if 1440 ≤ offset.natAbs then throw (.offset offset)
        let date ← Date.check t.year t.month t.day
        let clock ← Clock.check hour minute second (microseconds fraction)
        return .moment ⟨date, clock, t.zone⟩
    result.mapError .calendar

/-- The six bits that a character of encoded bytes stands for. -/
def sixBits? (c : Char) : Option Nat :=
  if 'A' ≤ c ∧ c ≤ 'Z' then some (c.toNat - 'A'.toNat)
  else if 'a' ≤ c ∧ c ≤ 'z' then some (c.toNat - 'a'.toNat + 26)
  else if '0' ≤ c ∧ c ≤ '9' then some (c.toNat - '0'.toNat + 52)
  else if c = '+' then some 62
  else if c = '/' then some 63
  else none

/--
Bytes from their encoding in characters of six bits.  `held` are the characters of a
group of four that is not complete, `pads` the equals signs since the last character;
other characters count for nothing.
-/
def decodeBytes (held : List Nat) (pads : Nat) (done : List UInt8) :
    List Char → Except Fault (List UInt8)
  | [] => if held.isEmpty then .ok done.reverse else .error .malformed
  | c :: rest =>
    if c = '=' then
      if 2 ≤ held.length then
        if 4 ≤ held.length + pads + 1 then .ok done.reverse
        else decodeBytes held (pads + 1) done rest
      else decodeBytes held pads done rest
    else
      match sixBits? c with
      | none => decodeBytes held pads done rest
      | some n =>
        let byte (high low : Nat) : UInt8 := UInt8.ofNat (high % 256 + low)
        match held with
        | [] => decodeBytes [n] 0 done rest
        | [a] => decodeBytes [a, n] 0 (byte (a * 4) (n / 16) :: done) rest
        | [a, b] => decodeBytes [a, b, n] 0 (byte (b % 16 * 16) (n / 4) :: done) rest
        | _ :: _ :: z :: _ => decodeBytes [] 0 (byte (z % 4 * 64) n :: done) rest

/-- The scalar value of a text that is of a kind. -/
def scalarOf (kind : Kind) (text : String) : Except Fault Scalar :=
  let s := text.toList
  match kind with
  | .null => .ok .null
  | .bool => .bool <$> truthValue s
  | .int => .int <$> integer s
  | .float => .float <$> fraction s
  | .timestamp => timestamp s
  | .binary =>
    if s.all fun c => c.toNat < 128 then .bytes <$> decodeBytes [] 0 [] s else .error .malformed
  | .text => .ok (.string text)
  | .sequence | .mapping | .merge | .value | .unknown => .error .malformed

end ApiClientGen.Yaml
