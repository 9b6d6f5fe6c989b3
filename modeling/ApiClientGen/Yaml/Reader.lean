/-
The value of a YAML text.

Nodes are turned into values level by level, each node once, however many aliases
lead to it: this settles whether the text has a value, and which fault it has if it
has several.  The value itself is then unrolled to a number of levels, because aliases
can make it endlessly deep.

Keys are scalars.  Two keys are one if they are equal as values, so that a truth value
and the integer of its size meet, and the first of them stays.  A merge key brings in
the entries of other mappings in front of the mapping's own.
-/
import ApiClientGen.Document.Raw
import ApiClientGen.Yaml.Scalar

namespace ApiClientGen.Yaml

open ApiClientGen.Document ApiClientGen.Number

mutual

/-- How many nodes there are in a node, itself included. -/
def Node.size : Node → Nat
  | .scalar _ _ _ => 1
  | .alias _ => 1
  | .sequence _ _ items => itemsSize items + 1
  | .mapping _ _ entries => entriesSize entries + 1

/-- How many nodes there are in the items of a sequence. -/
def itemsSize : List Node → Nat
  | [] => 0
  | n :: rest => n.size + itemsSize rest

/-- How many nodes there are in the entries of a mapping. -/
def entriesSize : List (Node × Node) → Nat
  | [] => 0
  | (k, v) :: rest => k.size + v.size + entriesSize rest

end

namespace Node

/-- The anchor of a node, empty if it has none. -/
def anchor : Node → String
  | .scalar anchor _ _ | .sequence anchor _ _ | .mapping anchor _ _ => anchor
  | .alias _ => ""

end Node

/-- The kind of a collection, which without a tag is its own. -/
def Tag.collectionKind (tag : Tag) (own : Kind) : Kind :=
  match tag with
  | .explicit name => namedKind name
  | _ => own

namespace Tree

/-- The node itself, or the one that an alias stands for. -/
def target (t : Tree) (n : Node) : Node :=
  match n with
  | .alias name => (t.anchored.lookup name).getD Node.empty
  | _ => n

/-- The kind of a key, if it is a scalar. -/
def keyKind? (t : Tree) (key : Node) : Option Kind :=
  match t.target key with
  | .scalar _ tag text => some (tag.scalarKind text)
  | _ => none

/-- A key that names a mapping's own value counts as a text where the mapping is read. -/
def plainKey (t : Tree) (key : Node) : Node :=
  match t.target key with
  | .scalar anchor tag text => if tag.scalarKind text = .value then .scalar anchor .text text else key
  | _ => key

/--
The entries of a mapping with those merged into it in front.  The mappings in `open_`
are being merged already and bring in only their own entries; the number of mappings
bounds how deep merging goes.
-/
def mergedEntries (t : Tree) : Nat → List String → String → List (Node × Node) →
    Except Fault (List (Node × Node))
  | 0, _, _, entries => .ok (entries.filter fun e => t.keyKind? e.1 ≠ some .merge)
  | fuel + 1, open_, anchor, entries => do
    let own := (entries.filter fun e => t.keyKind? e.1 ≠ some .merge).map fun e => (t.plainKey e.1, e.2)
    if anchor ≠ "" ∧ open_.contains anchor then return own
    let sources := entries.filter fun e => t.keyKind? e.1 = some .merge
    let within := anchor :: open_
    let merged ← sources.mapM fun e =>
      match t.target e.2 with
      | .mapping a _ es => t.mergedEntries fuel within a es
      | .sequence _ _ items => do
        let lists ← items.mapM fun item =>
          match t.target item with
          | .mapping a _ es => t.mergedEntries fuel within a es
          | _ => .error .malformed
        return lists.reverse.flatten
      | _ => .error .malformed
    return merged.flatten ++ own

/-- The text of a scalar; a mapping has one if it names its own value. -/
def scalarText (t : Tree) : Nat → Node → Except Fault String
  | 0, _ => .error .tooDeep
  | fuel + 1, n =>
    match t.target n with
    | .scalar _ _ text => .ok text
    | .mapping _ _ entries =>
      match entries.find? fun e => t.keyKind? e.1 = some .value with
      | some e => t.scalarText fuel e.2
      | none => .error .malformed
    | _ => .error .malformed

/-- How deep merging and naming values can go: the number of nodes. -/
def bound (t : Tree) : Nat :=
  t.root.size + t.anchored.foldl (fun n e => n + e.2.size) 0

/-- The scalar value of a node; none for a collection, whose parts come later. -/
def scalar? (t : Tree) (n : Node) : Except Fault (Option Scalar) := do
  let n := t.target n
  let kind := match n with
    | .scalar _ tag text => tag.scalarKind text
    | .sequence _ tag _ => tag.collectionKind .sequence
    | .mapping _ tag _ => tag.collectionKind .mapping
    | .alias _ => .null
  match kind with
  | .sequence | .mapping => return none
  | .merge | .value | .unknown => throw .malformed
  | kind =>
    match n with
    | .scalar _ _ text => return some (← scalarOf kind text)
    | _ =>
      let text ← t.scalarText t.bound n
      if kind = .timestamp then throw .timestampMapping
      return some (← scalarOf kind text)

/-- The parts of a collection: its items, or its merged entries. -/
inductive Parts where
  | items (ns : List Node)
  | entries (es : List (Node × Node))

/-- The parts of a collection, whose tag must be of its own kind. -/
def parts (t : Tree) (n : Node) : Except Fault Parts :=
  match t.target n with
  | .sequence _ tag items =>
    if tag.collectionKind .sequence = .sequence then .ok (.items items) else .error .malformed
  | .mapping anchor tag entries =>
    if tag.collectionKind .mapping = .mapping then
      .entries <$> t.mergedEntries t.bound [] anchor entries
    else .error .malformed
  | _ => .error .malformed

/-! ### Does the text have a value? -/

/-- The parts of a collection that are collections themselves, after a look at all its scalars. -/
def innerCollections (t : Tree) (n : Node) : Except Fault (List Node) := do
  match ← t.parts n with
  | .items ns =>
    ns.filterM fun n => return (← t.scalar? n).isNone
  | .entries es =>
    let values ← es.filterM fun e => do
      match ← t.scalar? e.1 with
      | none => throw .malformed
      | some _ => return (← t.scalar? e.2).isNone
    return values.map Prod.snd

/-- Looks at collections level by level, at each anchored one only once. -/
def checkLevels (t : Tree) : Nat → List String → List Node → Except Fault Unit
  | 0, _, _ => .ok ()
  | _, _, [] => .ok ()
  | fuel + 1, seen, n :: rest => do
    let anchor := (t.target n).anchor
    if anchor ≠ "" ∧ seen.contains anchor then t.checkLevels fuel seen rest
    else
      let inner ← t.innerCollections n
      t.checkLevels fuel (if anchor = "" then seen else anchor :: seen) (rest ++ inner)

/-- Whether the text has a value, and its first fault if not. -/
def check (t : Tree) : Except Fault Unit := do
  match ← t.scalar? t.root with
  | some _ => return ()
  | none => t.checkLevels ((t.bound + 1) * (t.bound + 1)) [] [t.root]

/-! ### The value -/

/-- Whether two scalars are one key. -/
def sameKey : Scalar → Scalar → Bool
  | .bool a, .bool b => a == b
  | .bool a, .int b => (if a then 1 else 0) == b
  | .int a, .bool b => a == (if b then 1 else 0)
  | .int a, .int b => a == b
  | .bool a, .float b => b.equalsInt (if a then 1 else 0)
  | .float a, .bool b => a.equalsInt (if b then 1 else 0)
  | .int a, .float b => b.equalsInt a
  | .float a, .int b => a.equalsInt b
  | .float a, .float b => a.sameNumber b || (a == .nan && b == .nan)
  | .moment a, .moment b => a.same b
  | a, b => a == b

/-- Writes something under a key; an equal key that is there keeps its place and its spelling. -/
def writeKey {α : Type} (entries : List (Scalar × α)) (key : Scalar) (value : α) :
    List (Scalar × α) :=
  match entries with
  | [] => [(key, value)]
  | (k, v) :: rest => if sameKey k key then (k, value) :: rest else (k, v) :: writeKey rest key value

/-- The value of a node; what lies deeper than the levels given is refused, and so is a key without a text. -/
def unroll (t : Tree) : Nat → Node → Except Fault RawValue
  | 0, _ => .error (.raw .tooDeep)
  | level + 1, n => do
    match ← t.scalar? n with
    | some s => return .scalar s
    | none =>
      match ← t.parts n with
      | .items ns => return .list (← ns.mapM (t.unroll level))
      | .entries es =>
        let entries ← es.mapM fun e => do
          match ← t.scalar? e.1 with
          | some key => return (key, e.2)
          | none => throw .malformed
        let kept := entries.foldl (fun acc e => writeKey acc e.1 e.2) []
        return .mapping (← kept.mapM fun e => do
          let _ ← e.1.keyText.mapError .raw
          return (e.1, ← t.unroll level e.2))

end Tree

/-- The value of a text, with at most the levels given; an empty text has the null value. -/
def read (levels : Nat) (text : String) : Except Fault RawValue := do
  match ← Tree.ofTokens (tokens text.toList) with
  | none => return .scalar .null
  | some t =>
    t.check
    t.unroll levels t.root

end ApiClientGen.Yaml
