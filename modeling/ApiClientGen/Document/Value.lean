/-
Values of documents.

A document is a tree: mappings with ordered text keys, lists, and scalars at the
leaves.  Everything that walks a document has these three cases and recurses on the
tree, in one function for values and one each for the items of a list and the fields
of a mapping.
-/
import ApiClientGen.Document.Calendar
import ApiClientGen.Document.Fields
import ApiClientGen.Number.Binary64

namespace ApiClientGen.Document

open ApiClientGen.Number

/-- A value without parts. -/
inductive Scalar where
  | null
  | bool (b : Bool)
  | int (i : Int)
  | float (x : Binary64)
  | string (s : String)
  | date (d : Date)
  | moment (m : Moment)
  | clock (c : Clock)
  | bytes (bs : List UInt8)
  deriving DecidableEq, Repr, Inhabited

/-- A value of a document. -/
inductive Value where
  | scalar (s : Scalar)
  | list (items : List Value)
  | mapping (fields : List (String × Value))
  deriving Repr, Inhabited

namespace Value

/-- The null value. -/
@[match_pattern] abbrev null : Value := .scalar .null

/-- A truth value. -/
@[match_pattern] abbrev bool (b : Bool) : Value := .scalar (.bool b)

/-- A text. -/
@[match_pattern] abbrev string (s : String) : Value := .scalar (.string s)

/-- An integer. -/
@[match_pattern] abbrev int (i : Int) : Value := .scalar (.int i)

/-! ### Equality is decidable -/

mutual

/-- Decides equality of values. -/
def decEq : (a b : Value) → Decidable (a = b)
  | .scalar a, .scalar b =>
    if h : a = b then isTrue (by rw [h]) else isFalse fun h' => by cases h'; exact h rfl
  | .list a, .list b =>
    match decEqItems a b with
    | isTrue h => isTrue (by rw [h])
    | isFalse h => isFalse fun h' => by cases h'; exact h rfl
  | .mapping a, .mapping b =>
    match decEqFields a b with
    | isTrue h => isTrue (by rw [h])
    | isFalse h => isFalse fun h' => by cases h'; exact h rfl
  | .scalar _, .list _ | .scalar _, .mapping _ => isFalse fun h => by cases h
  | .list _, .scalar _ | .list _, .mapping _ => isFalse fun h => by cases h
  | .mapping _, .scalar _ | .mapping _, .list _ => isFalse fun h => by cases h

/-- Decides equality of the items of two lists. -/
def decEqItems : (a b : List Value) → Decidable (a = b)
  | [], [] => isTrue rfl
  | x :: xs, y :: ys =>
    match decEq x y, decEqItems xs ys with
    | isTrue h, isTrue h' => isTrue (by rw [h, h'])
    | isFalse h, _ => isFalse fun h' => by cases h'; exact h rfl
    | _, isFalse h => isFalse fun h' => by cases h'; exact h rfl
  | [], _ :: _ | _ :: _, [] => isFalse fun h => by cases h

/-- Decides equality of the fields of two mappings. -/
def decEqFields : (a b : List (String × Value)) → Decidable (a = b)
  | [], [] => isTrue rfl
  | (k, x) :: xs, (l, y) :: ys =>
    match instDecidableEqString k l, decEq x y, decEqFields xs ys with
    | isTrue h, isTrue h', isTrue h'' => isTrue (by rw [h, h', h''])
    | isFalse h, _, _ => isFalse fun h' => by cases h'; exact h rfl
    | _, isFalse h, _ => isFalse fun h' => by cases h'; exact h rfl
    | _, _, isFalse h => isFalse fun h' => by cases h'; exact h rfl
  | [], _ :: _ | _ :: _, [] => isFalse fun h => by cases h

end

instance : DecidableEq Value := decEq

/-! ### Looking at a value -/

/-- The fields of a mapping; any other value counts as one without fields. -/
def asFields : Value → Fields Value
  | .mapping fields => fields
  | _ => []

/-- The items of a list; any other value counts as an empty one. -/
def asItems : Value → List Value
  | .list items => items
  | _ => []

/-- The text of a value that is one. -/
def asText? : Value → Option String
  | .string s => some s
  | _ => none

/-- Whether the value is a mapping. -/
def isMapping : Value → Bool
  | .mapping _ => true
  | _ => false

/-- Whether the value is a list. -/
def isList : Value → Bool
  | .list _ => true
  | _ => false

/-- Whether the value counts as something: not null, false, zero or empty. -/
def isSomething : Value → Bool
  | .scalar .null => false
  | .scalar (.bool b) => b
  | .scalar (.int i) => i != 0
  | .scalar (.float x) => !x.isZero
  | .scalar (.string s) => s != ""
  | .scalar (.date _) => true
  | .scalar (.moment _) => true
  | .scalar (.clock _) => true
  | .scalar (.bytes bs) => !bs.isEmpty
  | .list items => !items.isEmpty
  | .mapping fields => !fields.isEmpty

end Value

namespace Fields

/-- The fields of the mapping under a key, empty if there is none. -/
def fieldsAt (t : Fields Value) (key : String) : Fields Value :=
  ((Fields.get? t key).map Value.asFields).getD []

/-- The items of the list under a key, empty if there is none. -/
def itemsAt (t : Fields Value) (key : String) : List Value :=
  ((Fields.get? t key).map Value.asItems).getD []

/-- The text under a key. -/
def textAt? (t : Fields Value) (key : String) : Option String :=
  (Fields.get? t key).bind Value.asText?

end Fields

end ApiClientGen.Document
