/-
Looking at a document while it is taken apart.

Whatever is asked of a value is asked of the value behind it if it is a reference.  A
missing value is of no kind at all: it has no fields, no items and no text.

Chains of references, schemas and values are followed up to bounds that come from the
document: a chain of references, schemas or values in which nothing occurs twice is
shorter, and one in which something occurs twice does not end.
-/
import ApiClientGen.Extraction.Progress

namespace ApiClientGen.Extraction

open ApiClientGen.Document ApiClientGen.Reference ApiClientGen.Text

/-- How far a document is followed. -/
structure Bounds where
  /-- The references in a chain of them. -/
  chain : Nat := 0
  /-- The levels of schemas inside of schemas. -/
  levels : Nat := 0
  /-- The levels of values inside of values. -/
  depth : Nat := 0
  deriving DecidableEq, Repr

namespace Bounds

/-- The bounds that are wide enough for a document. -/
def ofDocument (document : Value) : Bounds where
  chain := refCount document + 1
  levels := mappingCount document + 1
  depth := valueCount document + 1

/-- The bounds, wider by others. -/
def widened (b more : Bounds) : Bounds :=
  ⟨b.chain + more.chain, b.levels + more.levels, b.depth + more.depth⟩

end Bounds

/-- What can be seen of a document, and the names of the models for its schemas. -/
structure Scope where
  /-- The node behind a node. -/
  resolve : Node → Except Fault Node
  /-- How many levels schemas are followed inside of schemas. -/
  levels : Nat
  /-- How many levels values are followed inside of values. -/
  depth : Nat
  models : Fields String := []

/-- What can be seen of a document within bounds. -/
def Scope.ofLinked (d : Linked) (b : Bounds) : Scope where
  resolve := d.followWithin b.chain
  levels := b.levels
  depth := b.depth

namespace Scope

variable (s : Scope)

/-- The node behind a node. -/
def follow (n : Node) : Except Failure Node := (s.resolve n).mapError .reference

/-- The node behind a node that may be missing. -/
def behind : Option Node → Except Failure (Option Node)
  | none => .ok none
  | some n => do return some (← s.follow n)

/-- The fields of a mapping. -/
def fieldsOf (n : Option Node) : Except Failure (Fields Node) := do
  return ((← s.behind n).map Node.fields).getD []

/-- The items of a list. -/
def itemsOf (n : Option Node) : Except Failure (List Node) := do
  return ((← s.behind n).map Node.items).getD []

/-- The text of a value that is one. -/
def anyTextOf (n : Option Node) : Except Failure (Option String) := do
  return (← s.behind n).bind fun n => n.value.asText?

/-- The text of a value that is one and is not empty. -/
def textOf (n : Option Node) : Except Failure (Option String) := do
  return (← s.anyTextOf n).filter (· ≠ "")

/-- Whether a value is there and counts as something. -/
def isSomething (n : Option Node) : Except Failure Bool := do
  return ((← s.behind n).map fun n => n.value.isSomething).getD false

/-- Whether a value is there and is a mapping. -/
def isMapping (n : Option Node) : Except Failure Bool := do
  return ((← s.behind n).map fun n => n.value.isMapping).getD false

/-- The texts among the items of a list. -/
def textsOf (n : Option Node) : Except Failure (List String) := do
  return (← (← s.itemsOf n).mapM fun item => s.anyTextOf (some item)).filterMap id

/-! ### Values as a whole -/

/-- A value with everything behind its references, to a number of levels. -/
def wholeWithin : Nat → Node → Except Failure Value
  | 0, _ => .error (.reference .endless)
  | levels + 1, n => do
    let target ← s.follow n
    match target.value with
    | .scalar v => return .scalar v
    | .list _ => return .list (← target.items.mapM (wholeWithin levels))
    | .mapping _ =>
      return .mapping (← target.fields.mapM fun e => do return (e.1, ← wholeWithin levels e.2))

/-- A value with everything behind its references. -/
def whole (n : Node) : Except Failure Value := s.wholeWithin s.depth n

/-- The text of a value as a whole. -/
def shown (n : Node) : Except Failure String := do
  ((← s.whole n).shown).mapError .text

/-- A value that is only looked at later. -/
def deferred (n : Node) : Deferred := .ofNode s.resolve n

/-! ### References to schemas -/

/-- What references to schemas begin with. -/
def schemaRefStart : String := "#/components/schemas/"

/-- The name of the schema that a reference names by its text. -/
def schemaName? (ref : String) : Option String := do
  let name ← textAfter? schemaRefStart ref
  if name.toList.contains '/' then none else some (String.ofList (unescaped name.toList))

/-- The model for a value that is a reference to a schema. -/
def modelOf? (n : Node) : Except Failure (Option String) :=
  match n.ref? with
  | none => .ok none
  | some ref =>
    match schemaName? ref with
    | none => .ok none
    | some name =>
      match Fields.get? s.models name with
      | some model => .ok (some model)
      | none => .error (.unknownSchema ref)

end Scope

/-- Whether a value is there and is true itself. -/
def isTrue (n : Option Node) : Bool :=
  match n with
  | some ⟨_, .bool true⟩ => true
  | _ => false

/-- Whether a value is missing or null itself. -/
def isNothing (n : Option Node) : Bool :=
  match n with
  | none => true
  | some ⟨_, .null⟩ => true
  | _ => false

end ApiClientGen.Extraction
