/-
Values as they are read.

In some formats the keys of a mapping are scalars of any kind.  A value as read becomes
a value of a document when every key is replaced by its text: keys that get the same
text become one, at the place of the first and with the value of the last.  An integer
of very many digits has no text, and the parts of a document lie at most a fixed number
of levels below its root.
-/
import ApiClientGen.Document.Display
import ApiClientGen.Number.Reading

namespace ApiClientGen.Document

open ApiClientGen.Number

/-- A value as it is read, with scalars as keys. -/
inductive RawValue where
  | scalar (s : Scalar)
  | list (items : List RawValue)
  | mapping (entries : List (Scalar × RawValue))
  deriving Repr, Inhabited

/-- How many levels below the root the parts of a document may lie. -/
def depthLimit : Nat := 100

/-- Why a value as it is read is no value of a document. -/
inductive RawFault where
  /-- A part lies too deep. -/
  | tooDeep
  /-- A key is an integer with more digits than are written. -/
  | longKey
  deriving DecidableEq, Repr

namespace RawFault

/-- What is wrong, in words. -/
def message : RawFault → String
  | tooDeep => "вложенность документа больше " ++ toString depthLimit ++ " уровней"
  | longKey => exceedsDigitsMessage

end RawFault

/-- The text of a key. -/
def Scalar.keyText : Scalar → Except RawFault String
  | .int i => if exceedsDigits i then .error .longKey else .ok (Scalar.int i).text
  | key => .ok key.text

mutual

/-- The value with texts as keys, for a value that lies the number of levels given below the root. -/
def RawValue.plain (depth : Nat) : RawValue → Except RawFault Value
  | .scalar s => if depthLimit < depth then .error .tooDeep else .ok (.scalar s)
  | .list items =>
    if depthLimit < depth then .error .tooDeep
    else do return .list (← plainItems (depth + 1) items)
  | .mapping entries =>
    if depthLimit < depth then .error .tooDeep
    else do return .mapping (Fields.ofEntries (← plainEntries (depth + 1) entries))

/-- The items of a list with texts as keys. -/
def plainItems (depth : Nat) : List RawValue → Except RawFault (List Value)
  | [] => .ok []
  | v :: rest => do return (← v.plain depth) :: (← plainItems depth rest)

/-- The entries of a mapping with texts as keys. -/
def plainEntries (depth : Nat) : List (Scalar × RawValue) → Except RawFault (List (String × Value))
  | [] => .ok []
  | (k, v) :: rest => do return (← k.keyText, ← v.plain depth) :: (← plainEntries depth rest)

end

mutual

/-- A value of a document as a value that was read. -/
def Value.raw : Value → RawValue
  | .scalar s => .scalar s
  | .list items => .list (rawItems items)
  | .mapping fields => .mapping (rawEntries fields)

/-- The items of a list as values that were read. -/
def rawItems : List Value → List RawValue
  | [] => []
  | v :: rest => v.raw :: rawItems rest

/-- The fields of a mapping as entries that were read. -/
def rawEntries : List (String × Value) → List (Scalar × RawValue)
  | [] => []
  | (k, v) :: rest => (.string k, v.raw) :: rawEntries rest

end

end ApiClientGen.Document
