/-
Where nodes come from.

Every tag of a node was written as a tag, its handle replaced by what it stands for, and every
text of a scalar was written as one, or nothing was written there.  A scalar is taken for what its
text has the shape of if it was written plain, or if it was tagged with a bare exclamation mark.
Reading a node from tokens fails with the fault that the tokens end in, or because they are in no
order that makes a node.
-/
import ApiClientGen.Proofs.Document.Outcomes
import ApiClientGen.Yaml.Node

namespace ApiClientGen.Yaml

/-- A tag among the tokens has a name, with the handle replaced by what it stands for. -/
def Tagged (ts : List Token) (name : String) : Prop :=
  Token.tag none name ∈ ts
    ∨ ∃ handle suffix expansion, Token.tag (some handle) suffix ∈ ts
      ∧ ((handle, expansion) ∈ Tree.commonHandles ∨ Token.tagHandle handle expansion ∈ ts)
      ∧ name = expansion ++ suffix

/-- A text is that of a scalar among the tokens, or nothing is written there. -/
def Written (ts : List Token) (text : String) : Prop :=
  text = "" ∨ ∃ style, Token.scalar text style ∈ ts

/-- The tag of a scalar with a text comes from the tokens. -/
def ScalarTagged (ts : List Token) (text : String) : Tag → Prop
  | .implicit => (text = "" ∨ Token.scalar text .plain ∈ ts) ∨ Tagged ts "!"
  | .text => True
  | .explicit name => Tagged ts name

/-- The tag of a collection comes from the tokens. -/
def CollectionTagged (ts : List Token) (tag : Tag) : Prop :=
  ∀ name, tag = .explicit name → Tagged ts name

/-- All tags and texts in a node come from the tokens. -/
inductive Node.From (ts : List Token) : Node → Prop where
  | scalar {anchor : String} {tag : Tag} {text : String} (htag : ScalarTagged ts text tag)
      (htext : Written ts text) : From ts (.scalar anchor tag text)
  | sequence {anchor : String} {tag : Tag} {items : List Node} (htag : CollectionTagged ts tag)
      (hitems : ∀ n ∈ items, From ts n) : From ts (.sequence anchor tag items)
  | mapping {anchor : String} {tag : Tag} {entries : List (Node × Node)}
      (htag : CollectionTagged ts tag) (hkeys : ∀ e ∈ entries, From ts e.1)
      (hvalues : ∀ e ∈ entries, From ts e.2) : From ts (.mapping anchor tag entries)
  | alias {name : String} : From ts (.alias name)

namespace Node

variable {ts : List Token}

theorem from_empty : From ts empty := .scalar (Or.inl (Or.inl rfl)) (Or.inl rfl)

/-! ### States -/

/-- What is to come is part of the tokens, and all that is remembered comes from them. -/
structure State.From (ts : List Token) (s : State) : Prop where
  tokens : s.tokens ⊆ ts
  anchored : ∀ e ∈ s.anchored, e.2.From ts
  handles : ∀ e ∈ s.handles, e ∈ Tree.commonHandles ∨ Token.tagHandle e.1 e.2 ∈ ts

/-- A fault of reading nodes: the tokens are in no order, too deep, or broken. -/
def ReadFault (ts : List Token) (fault : Fault) : Prop :=
  fault = .malformed ∨ fault = .tooDeep ∨ Token.broken fault ∈ ts

/-- A reader makes nodes from what is to come. -/
def Reader.Faithful (ts : List Token) (node : Reader) : Prop :=
  ∀ s, s.From ts → Ends (fun r => r.1.From ts ∧ r.2.From ts) (ReadFault ts) (node s)

namespace State

variable {s : State}

theorem From.advance (h : s.From ts) : s.advance.From ts where
  tokens := List.Subset.trans (List.drop_subset 1 s.tokens) h.tokens
  anchored := h.anchored
  handles := h.handles

theorem From.peek_mem (h : s.From ts) : s.peek ∈ ts ∨ s.peek = .streamEnd := by
  unfold State.peek
  cases hts : s.tokens with
  | nil => exact Or.inr rfl
  | cons t rest => exact Or.inl (h.tokens (by simp [hts]))

theorem From.mem_of_peek {t : Token} (h : s.From ts) (hpeek : s.peek = t) (ht : t ≠ .streamEnd) :
    t ∈ ts := by
  rcases h.peek_mem with hmem | hend
  · exact hpeek ▸ hmem
  · exact absurd (hpeek.symm.trans hend) ht

theorem From.unexpected (h : s.From ts) : ReadFault ts s.unexpected := by
  unfold State.unexpected
  split
  · rename_i fault hpeek
    exact Or.inr (Or.inr (h.mem_of_peek hpeek (by simp)))
  · exact Or.inl rfl

theorem From.declare (h : s.From ts) (anchor : String) :
    Ends (State.From ts) (ReadFault ts) (s.declare anchor) := by
  unfold State.declare
  split
  · exact h
  split
  · exact Or.inl rfl
  · exact ⟨h.tokens, h.anchored, h.handles⟩

theorem From.record (h : s.From ts) {node : Node} (hnode : node.From ts) (anchor : String) :
    (s.record anchor node).From ts := by
  unfold State.record
  split
  · exact h
  · exact ⟨h.tokens, List.forall_mem_cons.mpr ⟨hnode, h.anchored⟩, h.handles⟩

end State

/-! ### Collections -/

variable {node : Reader} {s : State}

theorem orEmpty_faithful (hnode : Reader.Faithful ts node) (ends : List Token) :
    Reader.Faithful ts (orEmpty node ends) := by
  intro s hs
  unfold orEmpty
  split
  · exact ⟨from_empty, hs⟩
  · exact hnode s hs

theorem valueOrEmpty_faithful (hnode : Reader.Faithful ts node) (ends : List Token) :
    Reader.Faithful ts (valueOrEmpty node ends) := by
  intro s hs
  unfold valueOrEmpty
  split
  · exact orEmpty_faithful hnode ends _ hs.advance
  · rename_i fault hpeek
    exact Or.inr (Or.inr (hs.mem_of_peek hpeek (by simp)))
  · exact ⟨from_empty, hs⟩

/-- The items of a sequence that is being read, and what is to come behind it. -/
def ItemsFrom (ts : List Token) (r : List Node × State) : Prop :=
  (∀ n ∈ r.1, n.From ts) ∧ r.2.From ts

/-- The entries of a mapping that is being read, and what is to come behind it. -/
def EntriesFrom (ts : List Token) (r : List (Node × Node) × State) : Prop :=
  (∀ e ∈ r.1, e.1.From ts) ∧ (∀ e ∈ r.1, e.2.From ts) ∧ r.2.From ts

/-- Reading goes on behind an item, if it used up a token. -/
theorem ends_behind_item {α : Type} {P : α → Prop} {x : Except Fault (Node × State)}
    {go : Node → State → Except Fault α} {shorter : State → Prop} [DecidablePred shorter]
    (hx : Ends (fun r => r.1.From ts ∧ r.2.From ts) (ReadFault ts) x)
    (hgo : ∀ item next, shorter next → item.From ts → next.From ts →
      Ends P (ReadFault ts) (go item next)) :
    Ends P (ReadFault ts)
      (x >>= fun r => if shorter r.2 then go r.1 r.2 else throw Fault.malformed) := by
  refine hx.bind fun r hr => ?_
  split
  · rename_i hshorter
    exact hgo r.1 r.2 hshorter hr.1 hr.2
  · exact Or.inl rfl

theorem blockEntries_from (hnode : Reader.Faithful ts node) {done : List Node}
    (hdone : ∀ n ∈ done, n.From ts) (hs : s.From ts) :
    Ends (ItemsFrom ts) (ReadFault ts) (blockEntries node done s) := by
  fun_induction blockEntries node done s with
  | case1 done s hpeek ih =>
      exact ends_behind_item (orEmpty_faithful hnode _ _ hs.advance)
        fun item next hshorter hitem hnext =>
          ih item next hshorter (List.forall_mem_cons.mpr ⟨hitem, hdone⟩) hnext
  | case2 done s hpeek => exact ⟨fun n hn => hdone n (List.mem_reverse.mp hn), hs.advance⟩
  | case3 done s => exact hs.unexpected

theorem indentlessEntries_from (hnode : Reader.Faithful ts node) {done : List Node}
    (hdone : ∀ n ∈ done, n.From ts) (hs : s.From ts) :
    Ends (ItemsFrom ts) (ReadFault ts) (indentlessEntries node done s) := by
  fun_induction indentlessEntries node done s with
  | case1 done s hpeek ih =>
      exact ends_behind_item (orEmpty_faithful hnode _ _ hs.advance)
        fun item next hshorter hitem hnext =>
          ih item next hshorter (List.forall_mem_cons.mpr ⟨hitem, hdone⟩) hnext
  | case2 done s => exact ⟨fun n hn => hdone n (List.mem_reverse.mp hn), hs⟩

theorem blockPairs_from (hnode : Reader.Faithful ts node) {done : List (Node × Node)}
    (hkeys : ∀ e ∈ done, e.1.From ts) (hvalues : ∀ e ∈ done, e.2.From ts) (hs : s.From ts) :
    Ends (EntriesFrom ts) (ReadFault ts) (blockPairs node done s) := by
  fun_induction blockPairs node done s with
  | case1 done s ends hpeek ih =>
      refine (orEmpty_faithful hnode _ _ hs.advance).bind fun key hkey => ?_
      exact ends_behind_item (valueOrEmpty_faithful hnode _ _ hkey.2)
        fun value next hshorter hvalue hnext =>
          ih key.1 value next hshorter (List.forall_mem_cons.mpr ⟨hkey.1, hkeys⟩)
            (List.forall_mem_cons.mpr ⟨hvalue, hvalues⟩) hnext
  | case2 done s hpeek =>
      exact ⟨fun e he => hkeys e (List.mem_reverse.mp he),
        fun e he => hvalues e (List.mem_reverse.mp he), hs.advance⟩
  | case3 done s => exact hs.unexpected

theorem behindComma_from (first : Bool) (hs : s.From ts) :
    Ends (State.From ts) (ReadFault ts) (behindComma first s) := by
  unfold behindComma
  split
  · exact hs
  split
  · exact hs.advance
  · exact hs.unexpected

theorem flowEntry_faithful (hnode : Reader.Faithful ts node) :
    Reader.Faithful ts (flowEntry node) := by
  intro s hs
  unfold flowEntry
  split
  · refine (orEmpty_faithful hnode _ _ hs.advance).bind fun key hkey => ?_
    refine (valueOrEmpty_faithful hnode _ _ hkey.2).bind fun value hvalue => ?_
    refine ⟨.mapping (fun name htag => nomatch htag) ?_ ?_, hvalue.2⟩
    · exact List.forall_mem_singleton.mpr hkey.1
    · exact List.forall_mem_singleton.mpr hvalue.1
  · exact hnode s hs

theorem flowEntries_from (hnode : Reader.Faithful ts node) {done : List Node}
    (hdone : ∀ n ∈ done, n.From ts) (hs : s.From ts) :
    Ends (ItemsFrom ts) (ReadFault ts) (flowEntries node done s) := by
  fun_induction flowEntries node done s with
  | case1 done s hpeek => exact ⟨fun n hn => hdone n (List.mem_reverse.mp hn), hs.advance⟩
  | case2 done s hpeek ih =>
      refine (behindComma_from _ hs).bind fun inner hinner => ?_
      dsimp only
      split
      · exact ⟨fun n hn => hdone n (List.mem_reverse.mp hn), hinner.advance⟩
      · exact ends_behind_item (flowEntry_faithful hnode _ hinner)
          fun item next hshorter hitem hnext =>
            ih item next hshorter (List.forall_mem_cons.mpr ⟨hitem, hdone⟩) hnext

theorem flowPair_from (hnode : Reader.Faithful ts node) (hs : s.From ts) :
    Ends (fun r => r.1.1.From ts ∧ r.1.2.From ts ∧ r.2.From ts) (ReadFault ts)
      (flowPair node s) := by
  unfold flowPair
  split
  · refine (orEmpty_faithful hnode _ _ hs.advance).bind fun key hkey => ?_
    refine (valueOrEmpty_faithful hnode _ _ hkey.2).bind fun value hvalue => ?_
    exact ⟨hkey.1, hvalue.1, hvalue.2⟩
  · exact (hnode s hs).bind fun key hkey => ⟨hkey.1, from_empty, hkey.2⟩

theorem flowPairs_from (hnode : Reader.Faithful ts node) {done : List (Node × Node)}
    (hkeys : ∀ e ∈ done, e.1.From ts) (hvalues : ∀ e ∈ done, e.2.From ts) (hs : s.From ts) :
    Ends (EntriesFrom ts) (ReadFault ts) (flowPairs node done s) := by
  have hfinished : (∀ e ∈ done.reverse, e.1.From ts) ∧ ∀ e ∈ done.reverse, e.2.From ts :=
    ⟨fun e he => hkeys e (List.mem_reverse.mp he), fun e he => hvalues e (List.mem_reverse.mp he)⟩
  fun_induction flowPairs node done s with
  | case1 done s hpeek => exact ⟨hfinished.1, hfinished.2, hs.advance⟩
  | case2 done s hpeek ih =>
      refine (behindComma_from _ hs).bind fun inner hinner => ?_
      dsimp only
      split
      · exact ⟨hfinished.1, hfinished.2, hinner.advance⟩
      · refine (flowPair_from hnode hinner).bind fun pair hpair => ?_
        split
        · rename_i hshorter
          have hkeys' : ∀ e ∈ pair.1 :: done, e.1.From ts :=
            List.forall_mem_cons.mpr ⟨hpair.1, hkeys⟩
          have hvalues' : ∀ e ∈ pair.1 :: done, e.2.From ts :=
            List.forall_mem_cons.mpr ⟨hpair.2.1, hvalues⟩
          exact ih pair.1 pair.2 hshorter hkeys' hvalues' hpair.2.2
            ⟨fun e he => hkeys' e (List.mem_reverse.mp he),
              fun e he => hvalues' e (List.mem_reverse.mp he)⟩
        · exact Or.inl rfl

/-! ### Nodes -/

/-- The tag in front of a node stands among the tokens. -/
theorem properties_from (hs : s.From ts) :
    (∀ handle suffix, (properties s).2.1 = some (handle, suffix) → Token.tag handle suffix ∈ ts)
      ∧ (properties s).2.2.From ts := by
  unfold properties
  split
  · split
    · rename_i htag
      refine ⟨fun handle suffix heq => ?_, hs.advance.advance⟩
      cases heq
      exact hs.advance.mem_of_peek htag (by simp)
    · exact ⟨fun _ _ heq => (nomatch heq), hs.advance⟩
  · rename_i htag
    have hmem := hs.mem_of_peek htag (by simp)
    split
    · refine ⟨fun handle suffix heq => ?_, hs.advance.advance⟩
      cases heq
      exact hmem
    · refine ⟨fun handle suffix heq => ?_, hs.advance⟩
      cases heq
      exact hmem
  · exact ⟨fun _ _ heq => (nomatch heq), hs⟩

theorem tagName_from {handles : List (String × String)}
    (hhandles : ∀ e ∈ handles, e ∈ Tree.commonHandles ∨ Token.tagHandle e.1 e.2 ∈ ts)
    {given : Option (Option String × String)}
    (hgiven : ∀ handle suffix, given = some (handle, suffix) → Token.tag handle suffix ∈ ts) :
    Ends (fun tag => ∀ name, tag = some name → Tagged ts name) (ReadFault ts)
      (tagName handles given) := by
  unfold tagName
  split
  · exact fun _ heq => nomatch heq
  · intro name heq
    cases heq
    exact Or.inl (hgiven _ _ rfl)
  · rename_i handle suffix
    split
    · rename_i expansion hlookup
      obtain ⟨before, after, hsplit, -⟩ := List.lookup_eq_some_iff.mp hlookup
      intro name heq
      cases heq
      exact Or.inr ⟨handle, suffix, expansion, hgiven _ _ rfl,
        hhandles _ (by simp [hsplit]), rfl⟩
    · exact Or.inl rfl

theorem scalarTag_from {tag : Option String} (htag : ∀ name, tag = some name → Tagged ts name)
    {text : String} {style : Style}
    (htext : style = .plain → text = "" ∨ Token.scalar text .plain ∈ ts) :
    ScalarTagged ts text (scalarTag tag style) := by
  unfold scalarTag
  split
  · split
    · exact Or.inl (htext ‹_›)
    · trivial
  · split
    · rename_i hbare
      exact Or.inr (hbare ▸ htag _ rfl)
    · exact htag _ rfl

theorem collectionTag_from {tag : Option String}
    (htag : ∀ name, tag = some name → Tagged ts name) :
    CollectionTagged ts (collectionTag tag) := by
  intro name heq
  unfold collectionTag at heq
  split at heq
  · cases heq
  · split at heq
    · cases heq
    · cases heq
      exact htag _ rfl

theorem finish_from {n : Node} {anchor : String} (hn : n.From ts) (hs : s.From ts) :
    Ends (fun r => r.1.From ts ∧ r.2.From ts) (ReadFault ts)
      (pure (n, s.record anchor n) : Except Fault (Node × State)) :=
  ⟨hn, hs.record hn anchor⟩

section

variable {tag : Option String} {anchor : String}
  (htag : ∀ name, tag = some name → Tagged ts name)

include htag

theorem sequence_from {x : Except Fault (List Node × State)}
    (hx : Ends (ItemsFrom ts) (ReadFault ts) x) :
    Ends (fun r => r.1.From ts ∧ r.2.From ts) (ReadFault ts)
      (x >>= fun r => pure (Node.sequence anchor (collectionTag tag) r.1,
        r.2.record anchor (.sequence anchor (collectionTag tag) r.1))) :=
  hx.bind fun _ hr => finish_from (.sequence (collectionTag_from htag) hr.1) hr.2

theorem mapping_from {x : Except Fault (List (Node × Node) × State)}
    (hx : Ends (EntriesFrom ts) (ReadFault ts) x) :
    Ends (fun r => r.1.From ts ∧ r.2.From ts) (ReadFault ts)
      (x >>= fun r => pure (Node.mapping anchor (collectionTag tag) r.1,
        r.2.record anchor (.mapping anchor (collectionTag tag) r.1))) :=
  hx.bind fun _ hr => finish_from (.mapping (collectionTag_from htag) hr.1 hr.2.1) hr.2.2

end

/-- **A node that is read comes from the tokens**, at every level of nesting. -/
theorem read_faithful (level : Nat) (block indentless : Bool) :
    Reader.Faithful ts (read level block indentless) := by
  have hnone : ∀ n ∈ ([] : List Node), n.From ts := fun _ hn => nomatch hn
  have hnone' : ∀ {part : Node × Node → Node}, ∀ e ∈ ([] : List (Node × Node)), (part e).From ts :=
    fun _ he => nomatch he
  induction level generalizing block indentless with
  | zero => exact fun _ _ => Or.inr (Or.inl rfl)
  | succ level ih =>
      intro s hs
      unfold read
      split
      · split
        · exact ⟨.alias, hs.advance⟩
        · exact Or.inl rfl
      · obtain ⟨hgiven, hstate⟩ := properties_from hs
        generalize properties s = front at hgiven hstate
        obtain ⟨anchor, given, inner⟩ := front
        refine (tagName_from hstate.handles hgiven).bind fun tag htag => ?_
        dsimp only
        split
        · rename_i text style hpeek
          have hmem := hstate.mem_of_peek hpeek (by simp)
          refine (hstate.declare anchor).bind fun next hnext => ?_
          refine finish_from (.scalar (scalarTag_from htag ?_) (Or.inr ⟨style, hmem⟩)) hnext.advance
          rintro rfl
          exact Or.inr hmem
        · refine (hstate.declare anchor).bind fun next hnext => ?_
          exact sequence_from htag (flowEntries_from (ih _ _) hnone hnext.advance)
        · refine (hstate.declare anchor).bind fun next hnext => ?_
          exact mapping_from htag (flowPairs_from (ih _ _) hnone' hnone' hnext.advance)
        · split
          · refine (hstate.declare anchor).bind fun next hnext => ?_
            exact sequence_from htag (indentlessEntries_from (ih _ _) hnone hnext)
          split
          · refine (hstate.declare anchor).bind fun next hnext => ?_
            exact sequence_from htag (blockEntries_from (ih _ _) hnone hnext.advance)
          split
          · refine (hstate.declare anchor).bind fun next hnext => ?_
            exact mapping_from htag (blockPairs_from (ih _ _) hnone' hnone' hnext.advance)
          split
          · refine (hstate.declare anchor).bind fun next hnext => ?_
            exact finish_from (.scalar (scalarTag_from htag fun _ => Or.inl rfl) (Or.inl rfl)) hnext
          · exact hstate.unexpected

end Node

/-! ### Documents -/

namespace Tree

open Node

variable {ts : List Token}

/-- All nodes of a document come from the tokens. -/
structure From (ts : List Token) (t : Tree) : Prop where
  root : t.root.From ts
  anchored : ∀ e ∈ t.anchored, e.2.From ts

theorem directives_from {version : Bool} {declared : List (String × String)} {rest : List Token}
    (hrest : rest ⊆ ts) (hdeclared : ∀ e ∈ declared, Token.tagHandle e.1 e.2 ∈ ts) :
    Ends (fun r => (∀ e ∈ r.1, e ∈ commonHandles ∨ Token.tagHandle e.1 e.2 ∈ ts) ∧ r.2 ⊆ ts)
      (ReadFault ts) (directives version declared rest) := by
  fun_induction directives version declared rest with
  | case1 => exact Or.inl rfl
  | case2 version declared major rest hfirst ih =>
      exact ih (List.subset_of_cons_subset hrest) hdeclared
  | case3 => exact Or.inl rfl
  | case4 version declared handle expansion rest hfresh ih =>
      exact ih (List.subset_of_cons_subset hrest)
        (List.forall_mem_cons.mpr ⟨hrest (by simp), hdeclared⟩)
  | case5 version declared rest ih => exact ih (List.subset_of_cons_subset hrest) hdeclared
  | case6 version declared rest =>
      refine ⟨fun e he => ?_, hrest⟩
      rcases List.mem_append.mp he with he | he
      · exact Or.inr (hdeclared e he)
      · exact Or.inl he

/-- What follows a document is the end of the text, or a fault. -/
theorem atEnd_ends {α : Type} {P : α → Prop} {a : α} (ha : P a) (rest : List Token) :
    rest ⊆ ts → Ends P (ReadFault ts)
      (match rest with
        | .streamEnd :: _ => pure a
        | .broken fault :: _ => throw fault
        | _ => throw .malformed : Except Fault α) := by
  intro hrest
  split
  · exact ha
  · exact Or.inr (Or.inr (hrest (by simp)))
  · exact Or.inl rfl

theorem single_from {handles : List (String × String)} {rest : List Token} (hrest : rest ⊆ ts)
    (hhandles : ∀ e ∈ handles, e ∈ commonHandles ∨ Token.tagHandle e.1 e.2 ∈ ts) :
    Ends (From ts) (ReadFault ts) (single handles rest) := by
  have hstate : State.From ts { tokens := rest, handles } :=
    ⟨hrest, fun _ he => (nomatch he), hhandles⟩
  refine (read_faithful levelLimit true false _ hstate).bind fun r hr => ?_
  have htree : From ts { root := r.1, anchored := r.2.anchored } := ⟨hr.1, hr.2.anchored⟩
  exact atEnd_ends htree _ (List.Subset.trans (List.dropWhile_sublist _).subset hr.2.tokens)

/-- **The document of a text comes from its tokens.** -/
theorem ofTokens_from (ts : List Token) :
    Ends (fun found => ∀ t, found = some t → t.From ts) (ReadFault ts) (ofTokens ts) := by
  have hcommon : ∀ e ∈ commonHandles, e ∈ commonHandles ∨ Token.tagHandle e.1 e.2 ∈ ts :=
    fun _ he => Or.inl he
  have hnone : ∀ e ∈ ([] : List (String × String)), Token.tagHandle e.1 e.2 ∈ ts :=
    fun _ he => nomatch he
  unfold ofTokens
  split
  case h_1 => exact fun _ h => nomatch h
  case h_6 =>
    refine (single_from (List.Subset.refl _) hcommon).bind fun t ht => ?_
    intro _ heq
    cases heq
    exact ht
  all_goals
    refine (directives_from (List.Subset.refl _) hnone).bind fun r hr => ?_
    obtain ⟨handles, rest⟩ := r
    obtain ⟨hhandles, hrest⟩ := hr
    dsimp only at hhandles hrest ⊢
    split
    · rename_i content
      have hcontent := List.subset_of_cons_subset hrest
      split
      · refine atEnd_ends ?_ _ (List.Subset.trans (List.dropWhile_sublist _).subset hcontent)
        intro _ heq
        cases heq
        exact ⟨from_empty, fun _ he => nomatch he⟩
      · refine (single_from hcontent hhandles).bind fun t ht => ?_
        intro _ heq
        cases heq
        exact ht
    · rename_i fault tail hrest
      exact Or.inr (Or.inr (hrest (by simp)))
    · exact Or.inl rfl

end Tree

end ApiClientGen.Yaml
