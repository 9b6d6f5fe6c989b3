/-
The shortest decimal text of a binary number.

A finite number is written with the fewest digits that still read back as it, and of
those with the digits nearest to it.  The decimals that read back form an interval
around the number: half a step to both sides, a quarter step downwards from a power
of two, with its ends where the magnitude is even.  For one digit, two digits and so
on, the two neighbours of the number among the decimals of that length are tested;
if any decimal of that length lies in the interval, one of the neighbours does.

The notation is positional for decimal exponents from -4 to 15, with at least one
digit behind the point, and scientific with two exponent digits or more otherwise.
-/
import ApiClientGen.Number.Binary64

namespace ApiClientGen.Number

/-- How many decimal digits a natural number has; zero has none. -/
def digitCount (n : Nat) : Nat := if n = 0 then 0 else (Nat.toDigits 10 n).length

/-- A positive decimal, `digits * 10 ^ exponent`. -/
structure Decimal where
  digits : Nat
  exponent : Int
  deriving DecidableEq, Repr

namespace Binary64

/-- The least `e` for which the positive number of so many units is below 10 ^ `e`. -/
def decimalMagnitude (units : Nat) : Int :=
  if unitsPerOne ≤ units then digitCount (units / unitsPerOne)
  else 1 - (digitCount ((unitsPerOne + units - 1) / units - 1) : Int)

/-- Four times the units, and the distances down and up to the ends of the interval that reads back. -/
def readBackInterval (units : Nat) : Nat × Nat × Bool :=
  let spare := spareBits units
  let step := Nat.pow 2 spare
  let lead := units / step
  let below := if lead = Nat.pow 2 52 ∧ 0 < spare then step else 2 * step
  (4 * units - below, 4 * units + 2 * step, lead % 2 == 0)

/-- Whether `digits * 10 ^ exponent` lies in the interval, which is given in quarter units. -/
def insideInterval (bounds : Nat × Nat × Bool) (d : Decimal) : Bool :=
  let (low, high, closed) := bounds
  let up := Nat.pow 10 d.exponent.toNat
  let down := Nat.pow 10 (-d.exponent).toNat
  let x := d.digits * up * (4 * unitsPerOne)
  if closed then low * down ≤ x && x ≤ high * down
  else low * down < x && x < high * down

/-- The neighbours of the number among the decimals of `n` digits: nearest first. -/
def neighbours (units n : Nat) : List Decimal :=
  let exponent := decimalMagnitude units - n
  let num := units * Nat.pow 10 (-exponent).toNat
  let den := unitsPerOne * Nat.pow 10 exponent.toNat
  let low := num / den
  let near := roundDiv num den
  let far := if near = low then low + 1 else low
  [⟨near, exponent⟩, ⟨far, exponent⟩]

/-- The decimal without zeros at its end. -/
def dropZeros : Nat → Nat → Int → Decimal
  | 0, d, e => ⟨d, e⟩
  | fuel + 1, d, e => if d % 10 = 0 ∧ d ≠ 0 then dropZeros fuel (d / 10) (e + 1) else ⟨d, e⟩

/-- The shortest decimal that reads back as the positive number of so many units. -/
def shortest (units : Nat) : Decimal :=
  let bounds := readBackInterval units
  let candidates := (List.range 17).flatMap fun n => neighbours units (n + 1)
  match candidates.find? (insideInterval bounds) with
  | some d => dropZeros 20 d.digits d.exponent
  | none => ⟨0, 0⟩

/-- An exponent with its sign and at least two digits. -/
def exponentText (e : Int) : String :=
  let digits := toString e.natAbs
  (if e < 0 then "e-" else "e+") ++ (if digits.length < 2 then "0" ++ digits else digits)

/-- A decimal in positional or scientific notation. -/
def decimalText (d : Decimal) : String :=
  let digits := Nat.toDigits 10 d.digits
  let place := (digits.length : Int) + d.exponent
  if -4 < place ∧ place ≤ 16 then
    if place ≤ 0 then
      "0." ++ String.ofList (List.replicate (-place).toNat '0' ++ digits)
    else if (digits.length : Int) ≤ place then
      String.ofList (digits ++ List.replicate (place - digits.length).toNat '0') ++ ".0"
    else
      String.ofList (digits.take place.toNat) ++ "." ++ String.ofList (digits.drop place.toNat)
  else
    let tail := digits.drop 1
    String.ofList (digits.take 1) ++ (if tail.isEmpty then "" else "." ++ String.ofList tail)
      ++ exponentText (place - 1)

/-- The text of a number: the shortest one that reads back. -/
def text : Binary64 → String
  | .nan => "nan"
  | .infinite s => if s then "-inf" else "inf"
  | .finite s n => (if s then "-" else "") ++ (if n = 0 then "0.0" else decimalText (shortest n))

end Binary64

end ApiClientGen.Number
