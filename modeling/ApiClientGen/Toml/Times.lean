/-
Times and dates in TOML.

A time of day is recognised by how a text begins, a date or a moment by the places of its
parts: the numbers are read where they are expected, and what stands between them is not
looked at.  A moment with a fraction of a second or an offset that cannot be read counts
as one without either.
-/
import ApiClientGen.Document.Calendar
import ApiClientGen.Number.Reading

namespace ApiClientGen.Toml

open ApiClientGen.Document ApiClientGen.Number ApiClientGen.Text

/-- The characters from one place up to another one. -/
def slice (start stop : Nat) (s : List Char) : List Char := (s.drop start).take (stop - start)

/-- The number that some characters are. -/
def number? (s : List Char) : Option Int := (readInteger 10 s).toOption

/-- The number that some characters are, unless it is negative. -/
def count? (s : List Char) : Option Nat := do
  let i ← number? s
  if i < 0 then none else some i.toNat

/-! ### Times of day -/

/-- Two digits at the beginning of a text, and what follows them. -/
def twoDigits? : List Char → Option (Nat × List Char)
  | a :: b :: rest =>
    if a.isDigit ∧ b.isDigit then
      some ((a.toNat - '0'.toNat) * 10 + (b.toNat - '0'.toNat), rest)
    else none
  | _ => none

/-- What follows a character at the beginning of a text. -/
def afterChar? (c : Char) : List Char → Option (List Char)
  | d :: rest => if d = c then some rest else none
  | [] => none

/-- The digits behind a point, three to six of them, as a number; otherwise nothing. -/
def pointDigits : List Char → Nat
  | '.' :: rest =>
    let digits := (rest.takeWhile Char.isDigit).take 6
    if digits.length < 3 then 0 else (count? digits).getD 0
  | _ => 0

/-- The parts of the time of day that a text begins with: hour, minute, second, and the digits behind the point. -/
def clockParts? (s : List Char) : Option (Nat × Nat × Nat × Nat) := do
  let (hour, s) ← twoDigits? s
  let (minute, s) ← twoDigits? (← afterChar? ':' s)
  let (second, s) ← twoDigits? (← afterChar? ':' s)
  return (hour, minute, second, pointDigits s)

/-! ### Dates and moments -/

/-- The offset from universal time in minutes. -/
def offset? (s : List Char) : Option Int :=
  if s = ['Z'] then some 0
  else do
    let hours ← number? (slice 1 3 s)
    let minutes ← number? (slice 4 6 s)
    let whole := hours * 60 + minutes
    return if s.head? = some '-' then -whole else whole

/-- The microseconds for the digits behind a point; more than six digits are scaled with rounding and cut. -/
def microseconds? (digits : List Char) : Option Nat := do
  let n ← count? digits
  if digits.length ≤ 6 then return n * Nat.pow 10 (6 - digits.length)
  let .finite _ whole := Binary64.ofQuotient false n 1 | none
  let scale := Binary64.ofDecimal false 1 (6 - (digits.length : Int))
  let .finite _ units := scale.mulNat (whole / Binary64.unitsPerOne) | none
  return units / Binary64.unitsPerOne

/-- The digits behind the point and the offset behind them. -/
def splitFraction (s : List Char) : List Char × Option (List Char) :=
  if s.getLast? = some 'Z' ∨ s.getLast? = some 'z' then (s.dropLast, some ['Z'])
  else
    let sign := if s.contains '+' then '+' else '-'
    if s.contains sign then (s.takeWhile (· ≠ sign), some (s.dropWhile (· ≠ sign))) else (s, none)

/-- Fraction and offset of a moment, from what stands behind its seconds. -/
def fractionAndOffset? : List Char → Option (Nat × Option Int)
  | [] => some (0, none)
  | '.' :: rest => do
    let (digits, zone) := splitFraction rest
    let offset ← match zone with
      | some z => do pure (some (← offset? z))
      | none => some none
    return (← microseconds? digits, offset)
  | s => do return (0, some (← offset? s))

/-- The date at the beginning of a text. -/
def dateAt? (s : List Char) : Option Date := do
  (Date.check (← count? (slice 0 4 s)) (← count? (slice 5 7 s)) (← count? (slice 8 10 s))).toOption

/-- The time of day behind the date of a text, with the microseconds given. -/
def clockAt? (s : List Char) (microsecond : Nat) : Option Clock := do
  if 999999 < microsecond then none
  (Clock.check (← count? (slice 11 13 s)) (← count? (slice 14 16 s)) (← count? (slice 17 19 s))
    microsecond).toOption

/-- A calendar value: a day, or a moment. -/
inductive Calendar where
  | date (d : Date)
  | moment (m : Moment)
  deriving DecidableEq, Repr

/-- The date or the moment that a text is; it holds a hyphen behind its first character. -/
def calendar? (s : List Char) : Option Calendar :=
  if !(s.drop 1).contains '-' then none
  else if s.length = 10 then (dateAt? s).map .date
  else do
    let (microsecond, offset) := (fractionAndOffset? (s.drop 19)).getD (0, none)
    return .moment ⟨← dateAt? s, ← clockAt? s microsecond, offset⟩

end ApiClientGen.Toml
