/-
Numbers with a fraction, as data.

Documents hold fractional numbers in the binary format of 64 bits.  Every finite
number of that format is a whole multiple of its smallest positive one, 2 ^ (-1074),
so a finite number is its sign and that multiple, and sums and products are exact
integer arithmetic with one rounding at the end.  Rounding goes to the nearest
number whose leading 53 bits carry it, and from the middle to the even neighbour;
what lies too far out becomes infinite.
-/

namespace ApiClientGen.Number

/-- A binary number of 64 bits; a finite one is `units` times 2 ^ (-1074). -/
inductive Binary64 where
  | nan
  | infinite (negative : Bool)
  | finite (negative : Bool) (units : Nat)
  deriving DecidableEq, Repr, Inhabited

/-- A quotient rounded to the nearest integer, from the middle to the even one. -/
def roundDiv (num den : Nat) : Nat :=
  let q := num / den
  let twice := 2 * (num % den)
  if den < twice then q + 1
  else if twice = den then q + q % 2
  else q

/-- The rounded quotient is within half a unit of the exact one. -/
theorem roundDiv_near (num den : Nat) (h : 0 < den) :
    2 * (roundDiv num den * den) ≤ 2 * num + den ∧ 2 * num ≤ 2 * (roundDiv num den * den) + den := by
  have hdiv := Nat.div_add_mod num den
  have hmod := Nat.mod_lt num h
  generalize hq : num / den = q at hdiv
  generalize hr : num % den = r at hdiv hmod
  have hcomm : den * q = q * den := Nat.mul_comm den q
  have hsucc : (q + 1) * den = q * den + den := Nat.succ_mul q den
  simp only [roundDiv, hq, hr]
  split
  · omega
  · split
    · rcases Nat.mod_two_eq_zero_or_one q with hp | hp
      · rw [hp, Nat.add_zero]; omega
      · rw [hp]; omega
    · omega

namespace Binary64

/-- How many units the number one has. -/
def unitsPerOne : Nat := Nat.pow 2 1074

/-- How many low bits a magnitude may not use: all beyond the leading 53. -/
def spareBits (units : Nat) : Nat := Nat.log2 units + 1 - 53

/-- The number nearest to a quotient of natural numbers. -/
def ofQuotient (negative : Bool) (num den : Nat) : Binary64 :=
  let scaled := num * unitsPerOne
  let step := Nat.pow 2 (spareBits (scaled / den))
  let units := roundDiv scaled (den * step) * step
  if Nat.pow 2 2098 ≤ units then .infinite negative else .finite negative units

/-- The number nearest to `digits * 10 ^ exponent`; exponents far out need no arithmetic. -/
def ofDecimal (negative : Bool) (digits : Nat) (exponent : Int) : Binary64 :=
  if digits = 0 then .finite negative 0
  else
    let top := ((Nat.toDigits 10 digits).length : Int) + exponent
    if 310 < top then .infinite negative
    else if top < -330 then .finite negative 0
    else if 0 ≤ exponent then ofQuotient negative (digits * Nat.pow 10 exponent.toNat) 1
    else ofQuotient negative digits (Nat.pow 10 (-exponent).toNat)

/-- A signed count of units; zero takes the sign given for it. -/
def ofUnits (zeroSign : Bool) (units : Int) : Binary64 :=
  if units = 0 then .finite zeroSign 0
  else ofQuotient (units < 0) units.natAbs unitsPerOne

/-- The signed count of units of a finite magnitude. -/
def signedUnits (negative : Bool) (units : Nat) : Int :=
  if negative then -(units : Int) else units

/-- The number with its sign turned around. -/
def neg : Binary64 → Binary64
  | .nan => .nan
  | .infinite s => .infinite (!s)
  | .finite s n => .finite (!s) n

/-- The rounded sum. -/
def add : Binary64 → Binary64 → Binary64
  | .nan, _ => .nan
  | _, .nan => .nan
  | .infinite s, .infinite t => if s = t then .infinite s else .nan
  | .infinite s, .finite _ _ => .infinite s
  | .finite _ _, .infinite t => .infinite t
  | .finite s m, .finite t n => ofUnits (s && t) (signedUnits s m + signedUnits t n)

/-- The rounded product with a whole number. -/
def mulNat : Binary64 → Nat → Binary64
  | .nan, _ => .nan
  | .infinite s, k => if k = 0 then .nan else .infinite s
  | .finite s m, k =>
    if m * k = 0 then .finite s 0 else ofQuotient s (m * k) unitsPerOne

/-- Whether the number is neither infinite nor undefined. -/
def isFinite : Binary64 → Bool
  | .finite _ _ => true
  | _ => false

/-- Whether the number is zero, of either sign. -/
def isZero : Binary64 → Bool
  | .finite _ n => n == 0
  | _ => false

/-- Whether the number is exactly the integer. -/
def equalsInt (x : Binary64) (i : Int) : Bool :=
  match x with
  | .finite s n => signedUnits s n == i * unitsPerOne
  | _ => false

/-- Numeric equality: both zeros are one number, and an undefined number equals nothing. -/
def sameNumber : Binary64 → Binary64 → Bool
  | .finite s m, .finite t n => signedUnits s m == signedUnits t n
  | .infinite s, .infinite t => s == t
  | _, _ => false

end Binary64

end ApiClientGen.Number
