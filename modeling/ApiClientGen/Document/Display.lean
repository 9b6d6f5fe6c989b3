/-
Values as text.

A text stands for itself; every other value is shown in the notation of the generated
language, and inside a list or a mapping texts are shown as quoted literals too.
Messages and the free-form fields of an interface description use this.  An integer is
only shown if it does not have too many digits, wherever in a value it stands.
-/
import ApiClientGen.Document.Value
import ApiClientGen.Number.Reading
import ApiClientGen.Number.Shortest

namespace ApiClientGen.Document

open ApiClientGen.Number ApiClientGen.Text

/-- One byte inside a literal of bytes. -/
def escapedByte (quote : Char) (b : UInt8) : List Char :=
  let c := Char.ofNat b.toNat
  if c = '\\' ∨ c = quote then ['\\', c]
  else if c = '\n' then ['\\', 'n']
  else if c = '\r' then ['\\', 'r']
  else if c = '\t' then ['\\', 't']
  else if 32 ≤ b.toNat ∧ b.toNat < 127 then [c]
  else '\\' :: 'x' :: hexDigits 2 b.toNat

/-- The literal of some bytes. -/
def quotedBytes (bs : List UInt8) : String :=
  let quote := quoteFor (bs.map fun b => Char.ofNat b.toNat)
  String.ofList ('b' :: quote :: bs.flatMap (escapedByte quote) ++ [quote])

/-- A moment as an expression that makes it. -/
def momentExpression (m : Moment) : String :=
  let c := m.clock
  let small :=
    if c.microsecond ≠ 0 then [c.second, c.microsecond]
    else if c.second ≠ 0 then [c.second] else []
  let parts := ([m.date.year, m.date.month, m.date.day, c.hour, c.minute] ++ small).map toString
  let zone := m.offset.map fun minutes =>
    if minutes = 0 then "tzinfo=datetime.timezone.utc"
    else "tzinfo=datetime.timezone(" ++ CalendarFault.spanText minutes ++ ")"
  "datetime.datetime(" ++ String.intercalate ", " (parts ++ zone.toList) ++ ")"

/-- A time of day as an expression that makes it. -/
def clockExpression (c : Clock) : String :=
  let small :=
    if c.microsecond ≠ 0 then [c.second, c.microsecond]
    else if c.second ≠ 0 then [c.second] else []
  "datetime.time(" ++ String.intercalate ", " (([c.hour, c.minute] ++ small).map toString) ++ ")"

/-- A scalar as an expression that makes it. -/
def Scalar.expression : Scalar → String
  | .null => "None"
  | .bool b => if b then "True" else "False"
  | .int i => toString i
  | .float x => x.text
  | .string s => quoted s
  | .date d =>
    "datetime.date(" ++ String.intercalate ", " ([d.year, d.month, d.day].map toString) ++ ")"
  | .moment m => momentExpression m
  | .clock c => clockExpression c
  | .bytes bs => quotedBytes bs

/-- A scalar as text by itself. -/
def Scalar.text : Scalar → String
  | .string s => s
  | .date d => d.text
  | .moment m => m.textWith " "
  | .clock c => c.text
  | s => s.expression

mutual

/-- A value as an expression that makes it. -/
def Value.expression : Value → String
  | .scalar s => s.expression
  | .list items => "[" ++ String.intercalate ", " (itemExpressions items) ++ "]"
  | .mapping fields => "\x7b" ++ String.intercalate ", " (fieldExpressions fields) ++ "\x7d"

/-- The expressions of the items of a list. -/
def itemExpressions : List Value → List String
  | [] => []
  | v :: rest => v.expression :: itemExpressions rest

/-- The expressions of the fields of a mapping, each with its key. -/
def fieldExpressions : List (String × Value) → List String
  | [] => []
  | (k, v) :: rest => (quoted k ++ ": " ++ v.expression) :: fieldExpressions rest

end

/-- A value as text by itself. -/
def Value.text : Value → String
  | .scalar s => s.text
  | v => v.expression

/-! ### Values that are not shown -/

/-- Why a value has no text. -/
inductive TextFault where
  /-- An integer has more digits than are written. -/
  | longInteger
  deriving DecidableEq, Repr

namespace TextFault

/-- What is wrong, in words. -/
def message : TextFault → String
  | longInteger => exceedsDigitsMessage

end TextFault

/-- Whether a scalar is an integer with more digits than are written. -/
def Scalar.isLongInteger : Scalar → Bool
  | .int i => exceedsDigits i
  | _ => false

mutual

/-- Whether a value holds an integer with more digits than are written. -/
def Value.hasLongInteger : Value → Bool
  | .scalar s => s.isLongInteger
  | .list items => itemsHaveLongInteger items
  | .mapping fields => fieldsHaveLongInteger fields

/-- Whether an item of a list holds such an integer. -/
def itemsHaveLongInteger : List Value → Bool
  | [] => false
  | v :: rest => v.hasLongInteger || itemsHaveLongInteger rest

/-- Whether a field of a mapping holds such an integer. -/
def fieldsHaveLongInteger : List (String × Value) → Bool
  | [] => false
  | (_, v) :: rest => v.hasLongInteger || fieldsHaveLongInteger rest

end

/-- A value as text by itself, if it has one. -/
def Value.shown (v : Value) : Except TextFault String :=
  if v.hasLongInteger then .error .longInteger else .ok v.text

/-- The name of a value's type in messages. -/
def Value.typeName : Value → String
  | .scalar .null => "NoneType"
  | .scalar (.bool _) => "bool"
  | .scalar (.int _) => "int"
  | .scalar (.float _) => "float"
  | .scalar (.string _) => "str"
  | .scalar (.date _) => "date"
  | .scalar (.moment _) => "datetime"
  | .scalar (.clock _) => "time"
  | .scalar (.bytes _) => "bytes"
  | .list _ => "list"
  | .mapping _ => "dict"

end ApiClientGen.Document
