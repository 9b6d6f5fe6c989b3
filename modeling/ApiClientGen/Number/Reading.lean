/-
Reading integers and fractional numbers from text.

Both readers take blanks around the number, a sign, the decimal digits of every
script, and single low lines between digits.  An integer may be read to a base and
then carries the mark of that base if it likes (`0x`, `0o`, `0b`); base zero takes
the base from the mark and refuses leading zeros without one.  A decimal integer has
at most 4300 digits, whether it is read or written.
-/
import ApiClientGen.Number.Binary64
import ApiClientGen.Text.Layout
import ApiClientGen.Text.Quoted
import ApiClientGen.Text.Table.DecimalDigit

namespace ApiClientGen.Number

open ApiClientGen.Text

/-- Whether a character counts as a blank around a number. -/
def isNumberBlank (c : Char) : Bool :=
  (9 ≤ c.toNat && c.toNat ≤ 13) || c == ' ' || (127 ≤ c.toNat && isBlank c)

/-- The value of a digit in a run of ten that counts from zero. -/
def runDigit? : RangeTable → Nat → Option Nat
  | [], _ => none
  | (low, high) :: rest, n =>
    if n < low then none else if n ≤ high then some ((n - low) % 10) else runDigit? rest n

/-- The value of a decimal digit of any script. -/
def decimalDigit? (c : Char) : Option Nat := runDigit? Table.decimalDigit c.toNat

/-- Whether a character is a hexadecimal digit. -/
def isHexDigit (c : Char) : Bool := c.isDigit || ('a' ≤ c && c ≤ 'f') || ('A' ≤ c && c ≤ 'F')

/-- The value of a digit, with the Latin letters as digits from ten on. -/
def digitValue? (c : Char) : Option Nat :=
  if 'a' ≤ c ∧ c ≤ 'z' then some (c.toNat - 'a'.toNat + 10)
  else if 'A' ≤ c ∧ c ≤ 'Z' then some (c.toNat - 'A'.toNat + 10)
  else decimalDigit? c

/-- The digits of a number written with single low lines between them. -/
def spacedDigits? (base : Nat) : List Char → Option (List Nat)
  | [] => none
  | [c] => do let d ← digitValue? c; if d < base then some [d] else none
  | c :: '_' :: rest => do
    let d ← digitValue? c
    if d < base then return d :: (← spacedDigits? base rest) else none
  | c :: rest => do
    let d ← digitValue? c
    if d < base then return d :: (← spacedDigits? base rest) else none

/-- The number that a list of digits stands for. -/
def ofDigits (base : Nat) (ds : List Nat) : Nat := ds.foldl (fun n d => n * base + d) 0

/-- A sign in front of a number, and what follows it. -/
def takeSign : List Char → Bool × List Char
  | '-' :: rest => (true, rest)
  | '+' :: rest => (false, rest)
  | s => (false, s)

/-- Why a text is no integer. -/
inductive IntegerFault where
  | malformed (base : Nat) (text : String)
  | tooManyDigits (count : Nat)
  deriving DecidableEq, Repr

/-- The most digits a decimal integer may have. -/
def digitLimit : Nat := 4300

namespace IntegerFault

/-- What is wrong with the text, in words. -/
def message : IntegerFault → String
  | malformed base text =>
    "invalid literal for int() with base " ++ toString base ++ ": " ++ quoted text
  | tooManyDigits count =>
    "Exceeds the limit (" ++ toString digitLimit ++ " digits) for integer string conversion: value has "
      ++ toString count ++ " digits; use sys.set_int_max_str_digits() to increase the limit"

end IntegerFault

/-- Whether an integer has more decimal digits than are written. -/
def exceedsDigits (i : Int) : Bool := Nat.pow 10 digitLimit ≤ i.natAbs

/-- What is said of an integer that has more decimal digits than are written. -/
def exceedsDigitsMessage : String :=
  "Exceeds the limit (" ++ toString digitLimit ++ " digits) for integer string conversion; "
    ++ "use sys.set_int_max_str_digits() to increase the limit"

/-- The mark of a base: the letter behind a zero. -/
def baseOfMark : Char → Option Nat
  | 'x' | 'X' => some 16
  | 'o' | 'O' => some 8
  | 'b' | 'B' => some 2
  | _ => none

/-- The base that the digits are read to, and the digits without the mark of the base. -/
def withoutMark (base : Nat) (s : List Char) : Nat × List Char :=
  match s with
  | '0' :: mark :: rest =>
    match baseOfMark mark with
    | some b =>
      if base = 0 ∨ base = b then
        (b, match rest with | '_' :: more => more | _ => rest)
      else (base, s)
    | none => (if base = 0 then 10 else base, s)
  | _ => (if base = 0 then 10 else base, s)

/-- Reads an integer to a base; base zero goes by the mark. -/
def readInteger (base : Nat) (text : List Char) : Except IntegerFault Int :=
  let fault := IntegerFault.malformed base (String.ofList text)
  let body := dropEndWhile isNumberBlank (text.dropWhile isNumberBlank)
  let (negative, unsigned) := takeSign body
  let (radix, digits) := withoutMark base unsigned
  match spacedDigits? radix digits with
  | none => .error fault
  | some ds =>
    if radix = 10 ∧ digitLimit < ds.length then .error (.tooManyDigits ds.length)
    else if base = 0 ∧ radix = 10 ∧ ds.head? = some 0 ∧ ds.any (· ≠ 0) then .error fault
    else
      let n := ofDigits radix ds
      .ok (if negative then -(n : Int) else n)

/-- Splits at the first character for which `p` holds; the character itself is dropped. -/
def splitAtFirst (p : Char → Bool) (s : List Char) : List Char × Option (List Char) :=
  (s.takeWhile fun c => !p c,
    match s.dropWhile fun c => !p c with
    | [] => none
    | _ :: rest => some rest)

/-- Digits that may also be missing altogether. -/
def optionalDigits? (s : List Char) : Option (List Nat) :=
  if s.isEmpty then some [] else spacedDigits? 10 s

/-- The exponent behind the exponent letter, if there is one. -/
def exponent? : Option (List Char) → Option Int
  | none => some 0
  | some s => do
    let (negative, digits) := takeSign s
    let n := ofDigits 10 (← spacedDigits? 10 digits)
    return if negative then -(n : Int) else n

/-- Small letters for the capital ones of the Latin alphabet. -/
def lowered (s : List Char) : List Char := s.map Char.toLower

/-- Reads a number with a fraction or an exponent, or one of the names of the special numbers. -/
def readFraction? (text : List Char) : Option Binary64 :=
  let body := dropEndWhile isNumberBlank (text.dropWhile isNumberBlank)
  let (negative, unsigned) := takeSign body
  let word := lowered unsigned
  if word = "inf".toList ∨ word = "infinity".toList then some (.infinite negative)
  else if word = "nan".toList then some .nan
  else do
    let (mantissa, power) := splitAtFirst (fun c => c == 'e' || c == 'E') unsigned
    let (whole, fraction) := splitAtFirst (· == '.') mantissa
    let wholeDigits ← optionalDigits? whole
    let fractionDigits ← optionalDigits? (fraction.getD [])
    if wholeDigits.isEmpty && fractionDigits.isEmpty then none
    let exponent ← exponent? power
    return .ofDecimal negative (ofDigits 10 (wholeDigits ++ fractionDigits))
      (exponent - fractionDigits.length)

end ApiClientGen.Number
