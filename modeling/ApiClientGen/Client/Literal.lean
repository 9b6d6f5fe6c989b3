/-
Default values as literals.

A default of a field is written as a literal of the generated language.  Dates,
moments, bytes and numbers that are not finite have none, and a list or a mapping has
one only if all its parts do.  Integers are written in at most as many decimal digits as
are read; to come to a longer one ends the writing.  The default is looked at only now, and
so the writing also ends at a reference in it that leads nowhere.
-/
import ApiClientGen.Document.Display
import ApiClientGen.Reference.Resolve

namespace ApiClientGen.Client

open ApiClientGen.Document ApiClientGen.Number ApiClientGen.Reference ApiClientGen.Text

/-- Why the writing of a literal ends. -/
inductive LiteralFault where
  /-- An integer has more digits than are written. -/
  | tooManyDigits
  /-- A reference leads nowhere. -/
  | reference (fault : Reference.Fault)
  deriving DecidableEq, Repr

namespace LiteralFault

/-- What is wrong, in words. -/
def message : LiteralFault → String
  | tooManyDigits => exceedsDigitsMessage
  | reference fault => fault.message

end LiteralFault

/-- Whether an integer has more decimal digits than are written. -/
def isTooLong (i : Int) : Bool := exceedsDigits i

/-- The literal of a scalar, if it has one. -/
def scalarLiteral : Scalar → Except LiteralFault (Option String)
  | .int i => if isTooLong i then .error .tooManyDigits else .ok (some (Scalar.int i).expression)
  | .float x => .ok (if x.isFinite then some x.text else none)
  | .date _ => .ok none
  | .moment _ => .ok none
  | .clock _ => .ok none
  | .bytes _ => .ok none
  | s => .ok (some s.expression)

mutual

/-- The literal of a value that is looked at, if it has one. -/
def deferredLiteral : Deferred → Except LiteralFault (Option String)
  | .scalar s => scalarLiteral s
  | .list items => do
    return (← itemLiterals items).map fun ls => "[" ++ String.intercalate ", " ls ++ "]"
  | .mapping fields => do
    return (← fieldLiterals fields).map fun ls => "\x7b" ++ String.intercalate ", " ls ++ "\x7d"
  | .nothing => .ok none
  | .broken fault => .error (.reference fault)

/-- The literals of the items of a list, if all have one; all items are looked at. -/
def itemLiterals : List (Unit → Deferred) → Except LiteralFault (Option (List String))
  | [] => .ok (some [])
  | v :: rest => do
    let l? ← deferredLiteral (v ())
    let ls? ← itemLiterals rest
    return l?.bind fun l => ls?.map (l :: ·)

/-- The literals of the fields of a mapping, up to the first that has none. -/
def fieldLiterals : List (String × (Unit → Deferred)) → Except LiteralFault (Option (List String))
  | [] => .ok (some [])
  | (k, v) :: rest => do
    match ← deferredLiteral (v ()) with
    | none => return none
    | some l => return (← fieldLiterals rest).map ((quoted k ++ ": " ++ l) :: ·)

end

/-- The literal of a value without references, if it has one. -/
def literal (v : Value) : Except LiteralFault (Option String) := deferredLiteral (.ofValue v)

end ApiClientGen.Client
