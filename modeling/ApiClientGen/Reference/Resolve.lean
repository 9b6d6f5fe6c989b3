/-
Following references.

A reference is followed only when something is asked of the value behind it.  Its pointer
leads from the root of the document through parts of values; a reference on the way is
followed first, except for the one that is being followed, which is then just a mapping.
What a reference leads to may be a reference again.  A chain is followed up to a length,
and one that is longer counts as endless; chains of more references than the document has
do not end at all.

A value may also be taken out of its document without a look at what it holds.  References
that stand in it are followed when its parts are looked at, one after the other, and only then
it shows whether they lead anywhere; so every part waits for its turn.  How many levels of
parts are looked at does not depend on the document: a value that holds itself has no last
level, and to look at it never ends well.
-/
import ApiClientGen.Reference.Address
import ApiClientGen.Reference.Node
import ApiClientGen.Reference.Pointer
import ApiClientGen.Text.Quoted

namespace ApiClientGen.Reference

open ApiClientGen.Document ApiClientGen.Text

/-- Why a reference leads nowhere. -/
inductive Fault where
  /-- The address has no proper host. -/
  | address (fault : HostFault)
  /-- The reference leads out of the document. -/
  | external (ref document : String)
  /-- There is nothing where the pointer leads. -/
  | unresolvable (ref pointer : String)
  /-- The reference leads to itself. -/
  | itself (ref : String)
  /-- The chain of references never ends. -/
  | endless
  deriving DecidableEq, Repr

namespace Fault

/-- The message about a reference that leads nowhere. -/
def about (ref reason : String) : String :=
  "не удалось разрешить $ref: Error while resolving \x60" ++ ref ++ "\x60: " ++ reason

/-- What is wrong, in words. -/
def message : Fault → String
  | address fault => fault.message
  | external ref document => about ref ("ValueError: внешние ссылки не поддерживаются: " ++ document)
  | unresolvable ref pointer => about ref ("Unresolvable JSON pointer: " ++ quoted pointer)
  | itself ref => about ref "Reference refers directly to itself."
  | endless => "слишком глубокая вложенность схем"

/-- Whether the address of a reference is at fault. -/
def isAddress : Fault → Bool
  | address _ => true
  | _ => false

end Fault

/-- A document whose references can be followed. -/
structure Linked where
  document : Value
  deriving Repr

namespace Linked

/-- The parts of the pointer in a reference that leads into its own document. -/
def target (ref : String) : Except Fault Target := do
  let t ← (Target.ofText ref).mapError .address
  if ← t.isLocal.mapError .address then return t else throw (.external ref t.document)

/--
Where a pointer leads from a node, step by step; `self` is the place of the reference
that is being followed, and `follow` follows the others.
-/
def walk (follow : Node → Except Fault Node) (ref pointer : String) (self : Place) :
    Node → List String → Except Fault Node
  | n, [] => .ok n
  | n, part :: rest => do
    let here ← if n.place = self then pure n else follow n
    match here.part? part with
    | some next => walk follow ref pointer self next rest
    | none => throw (.unresolvable ref pointer)

/-- The node behind a node, along chains of at most the length given; one that is no reference is itself. -/
def followWithin (d : Linked) : Nat → Node → Except Fault Node
  | 0, n => if n.ref?.isSome then .error .endless else .ok n
  | length + 1, n =>
    match n.ref? with
    | none => .ok n
    | some ref => do
      let t ← target ref
      let reached ← walk (d.followWithin length) ref t.fragment n.place (.root d.document)
        (pointerParts t.fragment)
      if reached.place = n.place then throw (.itself ref)
      d.followWithin length reached

/-! ### References that cannot stand -/

mutual

/-- The first reference that stands where the text of a reference is expected. -/
def misplaced? : Value → Option String
  | .scalar _ => none
  | .list vs => misplacedItem? vs
  | .mapping fields =>
    (misplacedField? fields).or ((Fields.get? fields refKey).bind refText?)

/-- The first such reference in some items. -/
def misplacedItem? : List Value → Option String
  | [] => none
  | v :: rest => (misplaced? v).or (misplacedItem? rest)

/-- The first such reference in some fields. -/
def misplacedField? : List (String × Value) → Option String
  | [] => none
  | (_, v) :: rest => (misplaced? v).or (misplacedField? rest)

end

/-- What is wrong with a reference that is looked at before there is a document to lead into. -/
def misplacedFault (ref : String) : Fault :=
  match (do let t ← Target.ofText ref; let _ ← t.isLocal; return t) with
  | .ok t => .external ref t.document
  | .error fault => .address fault

mutual

/-- A value written anew, with bytes as lists of numbers. -/
def withoutBytes : Value → Value
  | .scalar (.bytes bs) => .list (bs.map fun b => .int b.toNat)
  | .scalar s => .scalar s
  | .list vs => .list (itemsWithoutBytes vs)
  | .mapping fields => .mapping (Fields.ofEntries (fieldsWithoutBytes fields))

/-- Items written anew, with bytes as lists of numbers. -/
def itemsWithoutBytes : List Value → List Value
  | [] => []
  | v :: rest => withoutBytes v :: itemsWithoutBytes rest

/-- Fields written anew, with bytes as lists of numbers. -/
def fieldsWithoutBytes : List (String × Value) → List (String × Value)
  | [] => []
  | (key, v) :: rest => (key, withoutBytes v) :: fieldsWithoutBytes rest

end

/-- A document whose references can be followed; all references have a text. -/
def ofFields (fields : Fields Value) : Except Fault Linked :=
  let document := withoutBytes (.mapping fields)
  match misplaced? document with
  | some ref => .error (misplacedFault ref)
  | none => .ok ⟨document⟩

end Linked

/-! ### Values that are looked at later -/

/-- A value as it shows when it is looked at, with parts that are looked at in their turn. -/
inductive Deferred where
  | scalar (s : Scalar)
  | list (items : List (Unit → Deferred))
  | mapping (fields : List (String × (Unit → Deferred)))
  /-- A reference to null, which is not null itself. -/
  | nothing
  /-- A reference that leads nowhere. -/
  | broken (fault : Fault)

namespace Deferred

mutual

/-- A value in which nothing is followed. -/
def ofValue : Value → Deferred
  | .scalar s => .scalar s
  | .list items => .list (ofItems items)
  | .mapping fields => .mapping (ofFields fields)

/-- The items of a list in which nothing is followed. -/
def ofItems : List Value → List (Unit → Deferred)
  | [] => []
  | v :: rest => (fun _ => ofValue v) :: ofItems rest

/-- The fields of a mapping in which nothing is followed. -/
def ofFields : List (String × Value) → List (String × (Unit → Deferred))
  | [] => []
  | (k, v) :: rest => (k, fun _ => ofValue v) :: ofFields rest

end

/-- How many levels of parts are looked at. -/
def lookLimit : Nat := 1000

/-- A node as it shows when it is looked at, to a number of levels; `follow` follows references. -/
def within (follow : Node → Except Fault Node) : Nat → Node → Deferred
  | 0, _ => .broken .endless
  | levels + 1, n =>
    match follow n with
    | .error fault => .broken fault
    | .ok target =>
      match target.value with
      | .scalar .null => if n.ref?.isSome then .nothing else .scalar .null
      | .scalar s => .scalar s
      | .list _ => .list (target.items.map fun item _ => within follow levels item)
      | .mapping _ => .mapping (target.fields.map fun e => (e.1, fun _ => within follow levels e.2))

/-- A node as it shows when it is looked at. -/
def ofNode (follow : Node → Except Fault Node) (n : Node) : Deferred := within follow lookLimit n

end Deferred

end ApiClientGen.Reference
