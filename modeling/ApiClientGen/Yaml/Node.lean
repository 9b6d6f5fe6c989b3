/-
Nodes of a YAML document.

The tokens of a text form one tree of nodes: scalars, sequences and mappings, each
with the tag it was given, and aliases, which stand for the node that carries their
anchor.  An alias may stand inside the very node it names.  A text holds one document
at most; a text without one holds nothing.

Reading goes down one level of nesting at a time and refuses what is nested deeper
than a fixed number of levels; along a collection it goes on as long as tokens are
used up.
-/
import ApiClientGen.Yaml.Token.Stream

namespace ApiClientGen.Yaml

/-- What a node may be tagged with. -/
inductive Tag where
  /-- No tag: the text of a plain scalar decides. -/
  | implicit
  /-- No tag on a quoted scalar: it is a text. -/
  | text
  /-- A tag written out. -/
  | explicit (name : String)
  deriving DecidableEq, Repr

/-- A node; the name of its anchor is empty if it has none. -/
inductive Node where
  | scalar (anchor : String) (tag : Tag) (text : String)
  | sequence (anchor : String) (tag : Tag) (items : List Node)
  | mapping (anchor : String) (tag : Tag) (entries : List (Node × Node))
  | alias (name : String)
  deriving Repr, Inhabited

/-- A document: its root and the nodes with anchors. -/
structure Tree where
  root : Node
  anchored : List (String × Node)

namespace Node

/-- What is known while nodes are read: the tokens to come, the anchors and the tag handles. -/
structure State where
  tokens : List Token
  /-- The anchors seen so far, also those of nodes that are not complete yet. -/
  known : List String := []
  anchored : List (String × Node) := []
  handles : List (String × String)

/-- Reads a node and leaves what is to come behind it. -/
abbrev Reader := State → Except Fault (Node × State)

/-- How many levels of nesting are read. -/
def levelLimit : Nat := 490

namespace State

/-- The next token. -/
def peek (s : State) : Token := s.tokens.headD .streamEnd

/-- The state behind the next token. -/
def advance (s : State) : State := { s with tokens := s.tokens.drop 1 }

/-- The fault of a token that cannot stand here. -/
def unexpected (s : State) : Fault :=
  match s.peek with
  | .broken fault => fault
  | _ => .malformed

/-- Remembers the anchor of a node that is about to be read; an anchor names one node only. -/
def declare (s : State) (anchor : String) : Except Fault State :=
  if anchor = "" then .ok s
  else if s.known.contains anchor then .error .malformed
  else .ok { s with known := anchor :: s.known }

/-- Remembers the node of an anchor. -/
def record (s : State) (anchor : String) (node : Node) : State :=
  if anchor = "" then s else { s with anchored := (anchor, node) :: s.anchored }

end State

/-- The scalar that stands where nothing is written. -/
def empty : Node := .scalar "" .implicit ""

/-- A node, unless one of the tokens given says that nothing is written here. -/
def orEmpty (node : Reader) (ends : List Token) : Reader := fun s =>
  if ends.contains s.peek then .ok (empty, s) else node s

/-! ### Collections -/

/-- The entries of a block sequence. -/
def blockEntries (node : Reader) (done : List Node) (s : State) :
    Except Fault (List Node × State) := do
  match s.peek with
  | .blockEntry =>
    let (item, next) ← orEmpty node [.blockEntry, .blockEnd] s.advance
    if next.tokens.length < s.tokens.length then blockEntries node (item :: done) next
    else throw .malformed
  | .blockEnd => return (done.reverse, s.advance)
  | _ => throw s.unexpected
termination_by s.tokens.length

/-- The entries of a sequence that is not indented further than the mapping around it. -/
def indentlessEntries (node : Reader) (done : List Node) (s : State) :
    Except Fault (List Node × State) := do
  match s.peek with
  | .blockEntry =>
    let (item, next) ← orEmpty node [.blockEntry, .key, .value, .blockEnd] s.advance
    if next.tokens.length < s.tokens.length then indentlessEntries node (item :: done) next
    else throw .malformed
  | _ => return (done.reverse, s)
termination_by s.tokens.length

/-- The value behind a key, empty if no mark of a value follows. -/
def valueOrEmpty (node : Reader) (ends : List Token) (s : State) : Except Fault (Node × State) :=
  match s.peek with
  | .value => orEmpty node ends s.advance
  | .broken fault => .error fault
  | _ => .ok (empty, s)

/-- The entries of a block mapping. -/
def blockPairs (node : Reader) (done : List (Node × Node)) (s : State) :
    Except Fault (List (Node × Node) × State) := do
  let ends := [Token.key, .value, .blockEnd]
  match s.peek with
  | .key =>
    let (key, next) ← orEmpty node ends s.advance
    let (value, next) ← valueOrEmpty node ends next
    if next.tokens.length < s.tokens.length then blockPairs node ((key, value) :: done) next
    else throw .malformed
  | .blockEnd => return (done.reverse, s.advance)
  | _ => throw s.unexpected
termination_by s.tokens.length

/-- The place behind the comma between two entries; before the first entry there is none. -/
def behindComma (first : Bool) (s : State) : Except Fault State :=
  if first then .ok s
  else if s.peek = .flowEntry then .ok s.advance
  else .error s.unexpected

/-- One entry of a flow sequence: a node, or a mapping of one pair. -/
def flowEntry (node : Reader) : Reader := fun s => do
  if s.peek = .key then
    let ends := [Token.value, .flowEntry, .flowSequenceEnd]
    let (key, next) ← orEmpty node ends s.advance
    let (value, next) ← valueOrEmpty node [.flowEntry, .flowSequenceEnd] next
    return (.mapping "" .implicit [(key, value)], next)
  else node s

/-- The entries of a flow sequence. -/
def flowEntries (node : Reader) (done : List Node) (s : State) :
    Except Fault (List Node × State) := do
  if s.peek = .flowSequenceEnd then return (done.reverse, s.advance)
  let inner ← behindComma done.isEmpty s
  if inner.peek = .flowSequenceEnd then return (done.reverse, inner.advance)
  let (item, next) ← flowEntry node inner
  if next.tokens.length < s.tokens.length then flowEntries node (item :: done) next
  else throw .malformed
termination_by s.tokens.length

/-- One entry of a flow mapping; a node without the mark of a key has no value. -/
def flowPair (node : Reader) (s : State) : Except Fault ((Node × Node) × State) := do
  if s.peek = .key then
    let (key, next) ← orEmpty node [.value, .flowEntry, .flowMappingEnd] s.advance
    let (value, next) ← valueOrEmpty node [.flowEntry, .flowMappingEnd] next
    return ((key, value), next)
  else
    let (key, next) ← node s
    return ((key, empty), next)

/-- The entries of a flow mapping. -/
def flowPairs (node : Reader) (done : List (Node × Node)) (s : State) :
    Except Fault (List (Node × Node) × State) := do
  if s.peek = .flowMappingEnd then return (done.reverse, s.advance)
  let inner ← behindComma done.isEmpty s
  if inner.peek = .flowMappingEnd then return (done.reverse, inner.advance)
  let (pair, next) ← flowPair node inner
  if next.tokens.length < s.tokens.length then flowPairs node (pair :: done) next
  else throw .malformed
termination_by s.tokens.length

/-! ### Nodes -/

/-- The anchor and the tag in front of a node, in either order. -/
def properties (s : State) : String × Option (Option String × String) × State :=
  match s.peek with
  | .anchor name =>
    match s.advance.peek with
    | .tag handle suffix => (name, some (handle, suffix), s.advance.advance)
    | _ => (name, none, s.advance)
  | .tag handle suffix =>
    match s.advance.peek with
    | .anchor name => (name, some (handle, suffix), s.advance.advance)
    | _ => ("", some (handle, suffix), s.advance)
  | _ => ("", none, s)

/-- The tag that a handle and a name make. -/
def tagName (handles : List (String × String)) : Option (Option String × String) →
    Except Fault (Option String)
  | none => .ok none
  | some (none, suffix) => .ok (some suffix)
  | some (some handle, suffix) =>
    match handles.lookup handle with
    | some expansion => .ok (some (expansion ++ suffix))
    | none => .error .malformed

/-- The tag of a scalar: without one, or with a bare exclamation mark, its style decides. -/
def scalarTag (tag : Option String) (style : Style) : Tag :=
  match tag with
  | none => if style = .plain then .implicit else .text
  | some name => if name = "!" then .implicit else .explicit name

/-- The tag of a collection. -/
def collectionTag (tag : Option String) : Tag :=
  match tag with
  | none => .implicit
  | some name => if name = "!" then .implicit else .explicit name

/-- A node, reading at most so many levels of nesting. -/
def read : Nat → (block indentless : Bool) → Reader
  | 0, _, _ => fun _ => .error .tooDeep
  | level + 1, block, indentless => fun s => do
    match s.peek with
    | .alias name =>
      if s.known.contains name then return (.alias name, s.advance) else throw .malformed
    | _ =>
      let (anchor, given, s) := properties s
      let tag ← tagName s.handles given
      let inBlock := read level true false
      let inMapping := read level true true
      let inFlow := read level false false
      let finish (result : Node × State) : Node × State :=
        (result.1, result.2.record anchor result.1)
      let sequence (r : List Node × State) : Node × State :=
        finish (.sequence anchor (collectionTag tag) r.1, r.2)
      let mapping (r : List (Node × Node) × State) : Node × State :=
        finish (.mapping anchor (collectionTag tag) r.1, r.2)
      match s.peek with
      | .scalar text style =>
        return finish (.scalar anchor (scalarTag tag style) text, (← s.declare anchor).advance)
      | .flowSequenceStart => return sequence (← flowEntries inFlow [] (← s.declare anchor).advance)
      | .flowMappingStart => return mapping (← flowPairs inFlow [] (← s.declare anchor).advance)
      | token =>
        if indentless && token = .blockEntry then
          return sequence (← indentlessEntries inBlock [] (← s.declare anchor))
        else if block && token = .blockSequenceStart then
          return sequence (← blockEntries inBlock [] (← s.declare anchor).advance)
        else if block && token = .blockMappingStart then
          return mapping (← blockPairs inMapping [] (← s.declare anchor).advance)
        else if given.isSome || anchor != "" then
          return finish (.scalar anchor (scalarTag tag .plain) "", ← s.declare anchor)
        else throw s.unexpected

end Node

namespace Tree

/-- The tag handles that every document knows. -/
def commonHandles : List (String × String) := [("!", "!"), ("!!", "tag:yaml.org,2002:")]

/-- The tag handles that the directives in front of a document declare. -/
def directives (version : Bool) (declared : List (String × String)) :
    List Token → Except Fault (List (String × String) × List Token)
  | .version major :: rest =>
    if version || major != 1 then .error .malformed else directives true declared rest
  | .tagHandle handle expansion :: rest =>
    if (declared.lookup handle).isSome then .error .malformed
    else directives version ((handle, expansion) :: declared) rest
  | .otherDirective :: rest => directives version declared rest
  | ts => .ok (declared ++ commonHandles, ts)

/-- The document whose root stands at the beginning of the tokens; no other may follow it. -/
def single (handles : List (String × String)) (ts : List Token) : Except Fault Tree := do
  let (root, s) ← Node.read Node.levelLimit true false { tokens := ts, handles }
  let rest := s.tokens.dropWhile (· = .documentEnd)
  match rest with
  | .streamEnd :: _ => return { root, anchored := s.anchored }
  | .broken fault :: _ => throw fault
  | _ => throw .malformed

/-- Whether a token means that the document in front of it is empty. -/
def endsDocument : Token → Bool
  | .version _ | .tagHandle _ _ | .otherDirective | .documentStart | .documentEnd | .streamEnd => true
  | _ => false

/-- The document of a text, if it holds one. -/
def ofTokens (ts : List Token) : Except Fault (Option Tree) := do
  match ts with
  | .streamEnd :: _ => return none
  | .version _ :: _ | .tagHandle _ _ :: _ | .otherDirective :: _ | .documentStart :: _ =>
    let (handles, rest) ← directives false [] ts
    match rest with
    | .documentStart :: content =>
      if endsDocument (content.headD .streamEnd) then
        let rest := content.dropWhile (· = .documentEnd)
        match rest with
        | .streamEnd :: _ => return some { root := Node.empty, anchored := [] }
        | .broken fault :: _ => throw fault
        | _ => throw .malformed
      else return some (← single handles content)
    | .broken fault :: _ => throw fault
    | _ => throw .malformed
  | _ => return some (← single commonHandles ts)

end Tree

end ApiClientGen.Yaml
