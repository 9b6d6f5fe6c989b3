/-
Places in a document.

A node is a value of a document together with its place, the steps that lead from it back
to the root.  Equal values at different places are different nodes.  A mapping whose
`$ref` is a text is a reference, whatever else it has.
-/
import ApiClientGen.Document.Value
import ApiClientGen.Number.Reading

namespace ApiClientGen.Reference

open ApiClientGen.Document ApiClientGen.Number

/-- A step from a value to one of its parts. -/
inductive Step where
  | field (name : String)
  | item (index : Nat)
  deriving DecidableEq, Repr

/-- The steps from a part of a document back to its root. -/
abbrev Place := List Step

/-- A value of a document with its place. -/
structure Node where
  place : Place
  value : Value
  deriving Repr

/-- The key that makes a mapping a reference. -/
def refKey : String := "$ref"

/-- The text of a value that is a reference. -/
def refText? : Value → Option String
  | .mapping fields => Fields.textAt? fields refKey
  | _ => none

namespace Node

/-- The root of a document. -/
def root (document : Value) : Node := ⟨[], document⟩

/-- The text of a node that is a reference. -/
def ref? (n : Node) : Option String := refText? n.value

/-- The nodes under the keys of a mapping; any other node has none. -/
def fields (n : Node) : Fields Node :=
  n.value.asFields.map fun e => (e.1, ⟨.field e.1 :: n.place, e.2⟩)

/-- The node under a key. -/
def field? (n : Node) (key : String) : Option Node :=
  (Fields.get? n.value.asFields key).map fun v => ⟨.field key :: n.place, v⟩

/-- The nodes in a list; any other node has none. -/
def items (n : Node) : List Node :=
  n.value.asItems.mapIdx fun i v => ⟨.item i :: n.place, v⟩

/-- The place in a row of things that an index names; negative ones count from the end. -/
def position? (length : Nat) (index : Int) : Option Nat :=
  let i := if index < 0 then index + length else index
  if 0 ≤ i ∧ i < length then some i.toNat else none

/-- The place in a row of things that a part of a pointer names. -/
def indexOf? (length : Nat) (part : String) : Option Nat :=
  match readInteger 10 part.toList with
  | .ok i => position? length i
  | .error _ => none

/-- What a part of a pointer names in a node: a field, an item, or a character of a text. -/
def part? (n : Node) (part : String) : Option Node :=
  match n.value with
  | .mapping _ => n.field? part
  | .list vs => do
    let i ← indexOf? vs.length part
    return ⟨.item i :: n.place, ← vs[i]?⟩
  | .scalar (.string s) => do
    let i ← indexOf? s.toList.length part
    return ⟨.item i :: n.place, .string (String.ofList [← s.toList[i]?])⟩
  | .scalar _ => none

end Node

/-! ### How many values there are -/

mutual

/-- How many values of a kind there are in a value, the value itself counted. -/
def countOf (kind : Value → Bool) : Value → Nat
  | .scalar v => (kind (.scalar v)).toNat
  | .list vs => (kind (.list vs)).toNat + countOfItems kind vs
  | .mapping fields => (kind (.mapping fields)).toNat + countOfFields kind fields

/-- How many values of a kind there are in some items. -/
def countOfItems (kind : Value → Bool) : List Value → Nat
  | [] => 0
  | v :: rest => countOf kind v + countOfItems kind rest

/-- How many values of a kind there are in some fields. -/
def countOfFields (kind : Value → Bool) : List (String × Value) → Nat
  | [] => 0
  | (_, v) :: rest => countOf kind v + countOfFields kind rest

end

/-- How many references there are in a value. -/
def refCount : Value → Nat := countOf fun v => (refText? v).isSome

/-- How many mappings there are in a value. -/
def mappingCount : Value → Nat := countOf Value.isMapping

/-- How many values there are in a value. -/
def valueCount : Value → Nat := countOf fun _ => true

end ApiClientGen.Reference
