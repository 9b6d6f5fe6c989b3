/-
Quoted literals.

A text is written between single quotes, or between double quotes when it holds a
single quote and no double one.  Backslash, the quote in use, line feed, carriage
return and tab have short escapes; every other character without a printed form is
written by its code in two, four or eight hexadecimal digits.
-/
import ApiClientGen.Text.Table.Unprintable

namespace ApiClientGen.Text

/-- Whether a character is shown as it is. -/
def isPrintable (c : Char) : Bool := !Table.unprintable.covers c.toNat

/-- A number in hexadecimal digits, filled up with zeros to the width given. -/
def hexDigits (width n : Nat) : List Char :=
  let digits := Nat.toDigits 16 n
  List.replicate (width - digits.length) '0' ++ digits

/-- The escape of a character that has no printed form. -/
def codeEscape (c : Char) : List Char :=
  let n := c.toNat
  if n < 0x100 then '\\' :: 'x' :: hexDigits 2 n
  else if n < 0x10000 then '\\' :: 'u' :: hexDigits 4 n
  else '\\' :: 'U' :: hexDigits 8 n

/-- One character as it stands inside a literal between the quotes given. -/
def escaped (quote c : Char) : List Char :=
  if c = '\\' ∨ c = quote then ['\\', c]
  else if c = '\n' then ['\\', 'n']
  else if c = '\r' then ['\\', 'r']
  else if c = '\t' then ['\\', 't']
  else if isPrintable c then [c]
  else codeEscape c

/-- The quote that a text is written between. -/
def quoteFor (s : List Char) : Char :=
  if s.contains '\'' && !s.contains '"' then '"' else '\''

/-- The literal of a text. -/
def quotedChars (s : List Char) : List Char :=
  let quote := quoteFor s
  quote :: s.flatMap (escaped quote) ++ [quote]

@[inherit_doc quotedChars]
def quoted (s : String) : String := String.ofList (quotedChars s.toList)

/-- The list of the literals of some texts, between brackets. -/
def quotedList (ss : List String) : String :=
  "[" ++ String.intercalate ", " (ss.map quoted) ++ "]"

end ApiClientGen.Text
