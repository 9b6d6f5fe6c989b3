/-
Faults of values.

The value of a text fails where its tokens fail, or because a part is not what it should be.  The
second kind of fault can be traced to the tokens as well: a scalar that is not of its kind was
tagged with that kind, and a number with too many parts is written out with all its colons.
Merging and unrolling only ever look at nodes that were read, so that this holds at every depth
and through every alias.
-/
import ApiClientGen.Proofs.Reference.Pointers
import ApiClientGen.Proofs.Yaml.NodeSources
import ApiClientGen.Proofs.Yaml.ScalarFaults
import ApiClientGen.Yaml.Reader

namespace ApiClientGen.Yaml

open ApiClientGen.Document ApiClientGen.Number ApiClientGen.Text

/-- The full name of a common tag. -/
def commonTag (name : String) : String := "tag:yaml.org,2002:" ++ name

/-- The tokens that a fault of a text can be traced to. -/
def TracedTo (ts : List Token) : Fault → Prop
  | .truthValue => Tagged ts (commonTag "bool") ∨ Tagged ts "!"
  | .timestamp | .timestampMapping => Tagged ts (commonTag "timestamp")
  | .emptyNumber => Tagged ts (commonTag "int") ∨ Tagged ts (commonTag "float")
  | .tooManyParts => ∃ text style, Token.scalar text style ∈ ts ∧ 174 ≤ text.toList.count ':'
  | .codeOverflow => Token.broken .codeOverflow ∈ ts
  | _ => True

/-- What is taken for granted of tokens: they only break off with faults of their own. -/
structure Sound (ts : List Token) : Prop where
  /-- No plain scalar ends in a line break. -/
  plain : ∀ text, Token.scalar text .plain ∈ ts → text.toList.getLast? ≠ some '\n'
  /-- The fault that tokens end in can be traced to them. -/
  broken : ∀ fault, Token.broken fault ∈ ts → TracedTo ts fault

/-! ### Kinds of tags -/

/-- The kinds whose scalars can fail are those of one common tag each. -/
theorem eq_commonTag_of_namedKind {name : String} {kind : Kind} (h : namedKind name = kind) :
    match kind with
    | .bool => name = commonTag "bool"
    | .int => name = commonTag "int"
    | .float => name = commonTag "float"
    | .timestamp => name = commonTag "timestamp"
    | _ => True := by
  unfold namedKind at h
  split at h <;> subst h
  all_goals first | trivial | exact textAfter?_eq_some.mp ‹_›

variable {ts : List Token}

theorem count_colon_of_written {text : String} (h : Written ts text)
    (hmany : 174 ≤ text.toList.count ':') :
    ∃ text style, Token.scalar text style ∈ ts ∧ 174 ≤ text.toList.count ':' := by
  rcases h with rfl | ⟨style, hmem⟩
  · simp at hmany
  · exact ⟨text, style, hmem, hmany⟩

/-- A fault of a scalar with a written tag can be traced to the tag. -/
theorem tracedTo_of_named {name text : String} (hname : Tagged ts name) (htext : Written ts text)
    {fault : Fault} (h : KindFaults (namedKind name) text.toList fault) : TracedTo ts fault := by
  have hcommon : ∀ {full : String}, name = full → Tagged ts full := fun heq => heq ▸ hname
  cases fault with
  | truthValue => exact Or.inl (hcommon (eq_commonTag_of_namedKind h.1))
  | timestamp => exact hcommon (eq_commonTag_of_namedKind h.1)
  | emptyNumber =>
      exact h.1.imp (fun hint => hcommon (eq_commonTag_of_namedKind hint))
        fun hfloat => hcommon (eq_commonTag_of_namedKind hfloat)
  | tooManyParts => exact count_colon_of_written htext h
  | timestampMapping | codeOverflow => exact absurd h id
  | malformed | codePoint | integer | fraction | calendar | tooDeep | raw => trivial

/-- A fault of a scalar can be traced to its tag, or to its text. -/
theorem tracedTo_of_kindFaults (hts : Sound ts) {tag : Tag} {text : String}
    (htag : ScalarTagged ts text tag) (htext : Written ts text) {fault : Fault}
    (h : KindFaults (tag.scalarKind text) text.toList fault) : TracedTo ts fault := by
  cases tag with
  | explicit name => exact tracedTo_of_named htag htext h
  | text =>
      cases fault with
      | tooManyParts => exact count_colon_of_written htext h
      | emptyNumber => rcases h.1 with h | h <;> cases h
      | truthValue | timestamp => cases h.1
      | timestampMapping | codeOverflow => exact absurd h id
      | malformed | codePoint | integer | fraction | calendar | tooDeep | raw => trivial
  | implicit =>
      cases fault with
      | truthValue =>
          -- Only a text that ends in a line break has the shape of another one.
          have hbreak := h.2 h.1
          rcases htag with (rfl | hplain) | hbare
          · simp at hbreak
          · exact absurd hbreak (hts.plain text hplain)
          · exact Or.inr hbare
      | timestamp => exact absurd h.1 h.2
      | emptyNumber => exact absurd rfl h.2
      | tooManyParts => exact count_colon_of_written htext h
      | timestampMapping | codeOverflow => exact absurd h id
      | malformed | codePoint | integer | fraction | calendar | tooDeep | raw => trivial

namespace Tree

variable {t : Tree}

/-! ### Nodes behind nodes -/

theorem From.target (ht : t.From ts) {n : Node} (hn : n.From ts) : (t.target n).From ts := by
  unfold Tree.target
  split
  · rename_i name
    cases hlookup : t.anchored.lookup name with
    | none => exact Node.from_empty
    | some found =>
        obtain ⟨before, after, hsplit, -⟩ := List.lookup_eq_some_iff.mp hlookup
        exact ht.anchored (name, found) (by simp [hsplit])
  · exact hn

theorem From.plainKey (ht : t.From ts) {n : Node} (hn : n.From ts) : (t.plainKey n).From ts := by
  have htarget := ht.target hn
  unfold Tree.plainKey
  split
  · rename_i anchor tag text heq
    rw [heq] at htarget
    split
    · cases htarget with
      | scalar htag htext => exact .scalar trivial htext
    · exact hn
  · exact hn

/-- The entries of a mapping that come from tokens. -/
def EntriesFrom (ts : List Token) (entries : List (Node × Node)) : Prop :=
  ∀ e ∈ entries, e.1.From ts ∧ e.2.From ts

theorem entriesFrom_of_mapping {anchor : String} {tag : Tag} {entries : List (Node × Node)}
    (h : (Node.mapping anchor tag entries).From ts) : EntriesFrom ts entries := by
  cases h with
  | mapping htag hkeys hvalues => exact fun e he => ⟨hkeys e he, hvalues e he⟩

theorem EntriesFrom.filter {entries : List (Node × Node)} (h : EntriesFrom ts entries)
    (p : Node × Node → Bool) : EntriesFrom ts (entries.filter p) :=
  fun e he => h e (List.mem_filter.mp he).1

theorem entriesFrom_flatten {lists : List (List (Node × Node))}
    (h : ∀ entries ∈ lists, EntriesFrom ts entries) : EntriesFrom ts lists.flatten := by
  intro e he
  obtain ⟨entries, hentries, he⟩ := List.mem_flatten.mp he
  exact h entries hentries e he

/-- Merging brings in entries of mappings that were read. -/
theorem From.mergedEntries (ht : t.From ts) (fuel : Nat) (around : List String) (anchor : String)
    {entries : List (Node × Node)} (hentries : EntriesFrom ts entries) :
    Ends (EntriesFrom ts) (fun fault => fault = .malformed)
      (t.mergedEntries fuel around anchor entries) := by
  induction fuel generalizing around anchor entries with
  | zero => exact hentries.filter _
  | succ fuel ih =>
      have hown : EntriesFrom ts ((entries.filter fun e => t.keyKind? e.1 ≠ some .merge).map
          fun e => (t.plainKey e.1, e.2)) := by
        intro e he
        obtain ⟨f, hf, rfl⟩ := List.mem_map.mp he
        exact ⟨ht.plainKey (hentries.filter _ f hf).1, (hentries.filter _ f hf).2⟩
      rw [Tree.mergedEntries]
      split
      · exact hown
      refine Ends.bind (Ends.mapM (Q := EntriesFrom ts) fun e he => ?_) fun merged hmerged => ?_
      · have htarget := ht.target (hentries.filter _ e he).2
        split
        · rename_i heq
          exact ih _ _ (entriesFrom_of_mapping (heq ▸ htarget))
        · rename_i anchor' tag items heq
          rw [heq] at htarget
          refine Ends.bind (Ends.mapM (Q := EntriesFrom ts) fun item hitem => ?_)
            fun lists hlists => ?_
          · cases htarget with
            | sequence htag hitems =>
                have hmapping := ht.target (hitems item hitem)
                split
                · rename_i heq'
                  exact ih _ _ (entriesFrom_of_mapping (heq' ▸ hmapping))
                · rfl
          · exact entriesFrom_flatten fun es hes => hlists.2 es (List.mem_reverse.mp hes)
        · rfl
      · intro e he
        exact (List.mem_append.mp he).elim (entriesFrom_flatten hmerged.2 e) (hown e)

/-- The text of a scalar was written. -/
theorem From.scalarText (ht : t.From ts) (fuel : Nat) {n : Node} (hn : n.From ts) :
    Ends (Written ts) (fun fault => fault = .malformed ∨ fault = .tooDeep)
      (t.scalarText fuel n) := by
  induction fuel generalizing n with
  | zero => exact Or.inr rfl
  | succ fuel ih =>
      have htarget := ht.target hn
      unfold Tree.scalarText
      split
      · rename_i heq
        rw [heq] at htarget
        cases htarget with
        | scalar htag htext => exact htext
      · rename_i heq
        have hentries := entriesFrom_of_mapping (heq ▸ htarget)
        split
        · rename_i e hfind
          exact ih (hentries e (List.mem_of_find?_eq_some hfind)).2
        · exact Or.inl rfl
      · exact Or.inl rfl

/-- A tag that makes something else of a collection was written. -/
theorem collectionKind_cases {tag : Tag} (htag : CollectionTagged ts tag) (own : Kind) :
    tag.collectionKind own = own
      ∨ ∃ name, tag.collectionKind own = namedKind name ∧ Tagged ts name := by
  cases tag with
  | implicit | text => exact Or.inl rfl
  | explicit name => exact Or.inr ⟨name, rfl, htag name rfl⟩

theorem From.writtenText (ht : t.From ts) {n : Node} (hn : n.From ts) :
    Ends (Written ts) (TracedTo ts) (t.scalarText t.bound n) := by
  refine (ht.scalarText t.bound hn).mono (fun _ h => h) ?_
  rintro _ (rfl | rfl) <;> trivial

/-- A collection that is taken for a scalar was tagged as one. -/
theorem From.scalarOf_named (ht : t.From ts) {n : Node} (hn : n.From ts)
    {name : String} (hname : Tagged ts name) :
    Ends (fun _ => True) (TracedTo ts) (do
      let text ← t.scalarText t.bound n
      if namedKind name = .timestamp then throw .timestampMapping
      return some (← scalarOf (namedKind name) text)) := by
  refine (ht.writtenText hn).bind fun text htext => ?_
  split
  · rename_i htime
    exact eq_commonTag_of_namedKind htime ▸ hname
  · exact ((scalarOf_ends _ _).mono (fun _ h => h) fun _ h =>
      tracedTo_of_named hname htext h).bind fun _ _ => trivial

/-- The scalar value of a node fails for what can be traced to the tokens. -/
theorem From.scalar? (hts : Sound ts) (ht : t.From ts) {n : Node} (hn : n.From ts) :
    Ends (fun _ => True) (TracedTo ts) (t.scalar? n) := by
  have htarget := ht.target hn
  unfold Tree.scalar?
  dsimp only
  generalize t.target n = n' at htarget
  cases n' with
  | scalar anchor tag text =>
      cases htarget with
      | scalar htag htext =>
        dsimp only
        split
        iterate 5 trivial
        exact ((scalarOf_ends _ _).mono (fun _ h => h) fun _ h =>
          tracedTo_of_kindFaults hts htag htext h).bind fun _ _ => trivial
  | sequence anchor tag items =>
      have hnamed := @From.scalarOf_named _ _ ht _ htarget
      cases htarget with
      | sequence htag hitems =>
        rcases collectionKind_cases htag .sequence with hown | ⟨name, hkind, hname⟩
        · simp only [hown]
          trivial
        · simp only [hkind]
          split
          iterate 5 trivial
          exact hnamed hname
  | mapping anchor tag entries =>
      have hnamed := @From.scalarOf_named _ _ ht _ htarget
      cases htarget with
      | mapping htag hkeys hvalues =>
        rcases collectionKind_cases htag .mapping with hown | ⟨name, hkind, hname⟩
        · simp only [hown]
          trivial
        · simp only [hkind]
          split
          iterate 5 trivial
          exact hnamed hname
  | «alias» name => exact (ht.writtenText htarget).bind fun _ _ => trivial

/-! ### Parts -/

/-- The parts of a collection come from the tokens. -/
def PartsFrom (ts : List Token) : Parts → Prop
  | .items ns => ∀ n ∈ ns, n.From ts
  | .entries es => EntriesFrom ts es

theorem From.parts (ht : t.From ts) {n : Node} (hn : n.From ts) :
    Ends (PartsFrom ts) (fun fault => fault = .malformed) (t.parts n) := by
  have htarget := ht.target hn
  unfold Tree.parts
  split
  · rename_i heq
    rw [heq] at htarget
    cases htarget with
    | sequence htag hitems =>
      split
      · exact hitems
      · rfl
  · rename_i heq
    split
    · exact (ht.mergedEntries _ _ _ (entriesFrom_of_mapping (heq ▸ htarget))).map fun _ h => h
    · rfl
  · rfl

/-- A fault of the parts is that they are no parts of a document. -/
theorem From.tracedParts (ht : t.From ts) {n : Node} (hn : n.From ts) :
    Ends (PartsFrom ts) (TracedTo ts) (t.parts n) := by
  refine (ht.parts hn).mono (fun _ h => h) ?_
  rintro _ rfl
  trivial

/-! ### Looking at all values -/

theorem From.innerCollections (hts : Sound ts) (ht : t.From ts) {n : Node} (hn : n.From ts) :
    Ends (fun ns => ∀ m ∈ ns, Node.From ts m) (TracedTo ts) (t.innerCollections n) := by
  unfold Tree.innerCollections
  refine (ht.tracedParts hn).bind fun parts hparts => ?_
  cases parts with
  | items ns =>
      exact Ends.filterM fun m hm =>
        (ht.scalar? hts (hparts m hm)).bind fun _ _ _ => hparts m hm
  | entries es =>
      refine (Ends.filterM (P := fun e => e.2.From ts) fun e he => ?_).bind fun values hvalues => ?_
      · refine (ht.scalar? hts (hparts e he).1).bind fun key _ => ?_
        cases key with
        | none => trivial
        | some key => exact (ht.scalar? hts (hparts e he).2).bind fun _ _ _ => (hparts e he).2
      · intro m hm
        obtain ⟨e, he, rfl⟩ := List.mem_map.mp hm
        exact hvalues e he

theorem From.checkLevels (hts : Sound ts) (ht : t.From ts) (fuel : Nat) (seen : List String)
    {ns : List Node} (hns : ∀ n ∈ ns, n.From ts) :
    Ends (fun _ => True) (TracedTo ts) (t.checkLevels fuel seen ns) := by
  fun_induction Tree.checkLevels t fuel seen ns with
  | case1 => trivial
  | case2 => trivial
  | case3 fuel seen n rest anchor hseen ih => exact ih fun m hm => hns m (List.mem_cons_of_mem _ hm)
  | case4 fuel seen n rest anchor hseen ih =>
      refine (ht.innerCollections hts (hns n (by simp))).bind fun inner hinner => ?_
      refine ih inner fun m hm => ?_
      rcases List.mem_append.mp hm with hm | hm
      · exact hns m (List.mem_cons_of_mem _ hm)
      · exact hinner m hm

/-- A text without a value has a fault that can be traced to its tokens. -/
theorem From.check (hts : Sound ts) (ht : t.From ts) :
    Ends (fun _ => True) (TracedTo ts) t.check := by
  unfold Tree.check
  refine (ht.scalar? hts ht.root).bind fun value _ => ?_
  cases value with
  | some value => trivial
  | none => exact ht.checkLevels hts _ _ (List.forall_mem_singleton.mpr ht.root)

/-! ### Unrolling -/

theorem writeKey_snd {α : Type} {P : α → Prop} {entries : List (Scalar × α)}
    (h : ∀ e ∈ entries, P e.2) (key : Scalar) {value : α} (hvalue : P value) :
    ∀ e ∈ writeKey entries key value, P e.2 := by
  induction entries with
  | nil => exact List.forall_mem_singleton.mpr hvalue
  | cons e entries ih =>
      unfold writeKey
      obtain ⟨he, hentries⟩ := List.forall_mem_cons.mp h
      split
      · exact List.forall_mem_cons.mpr ⟨hvalue, hentries⟩
      · exact List.forall_mem_cons.mpr ⟨he, ih hentries⟩

/-- What stands under keys was written there. -/
theorem writeKeys_snd {α : Type} {P : α → Prop} (entries done : List (Scalar × α))
    (hdone : ∀ e ∈ done, P e.2) (h : ∀ e ∈ entries, P e.2) :
    ∀ e ∈ entries.foldl (fun acc e => writeKey acc e.1 e.2) done, P e.2 := by
  induction entries generalizing done with
  | nil => exact hdone
  | cons e entries ih =>
      obtain ⟨he, hentries⟩ := List.forall_mem_cons.mp h
      exact ih _ (writeKey_snd hdone _ he) hentries

theorem From.unroll (hts : Sound ts) (ht : t.From ts) (level : Nat) {n : Node} (hn : n.From ts) :
    Ends (fun _ => True) (TracedTo ts) (t.unroll level n) := by
  induction level generalizing n with
  | zero => trivial
  | succ level ih =>
      unfold Tree.unroll
      refine (ht.scalar? hts hn).bind fun value _ => ?_
      cases value with
      | some value => trivial
      | none =>
          refine (ht.tracedParts hn).bind fun parts hparts => ?_
          cases parts with
          | items ns =>
              refine (Ends.mapM (Q := fun _ => True) fun m hm => ?_).bind fun _ _ => trivial
              exact ih (hparts m hm)
          | entries es =>
              refine (Ends.mapM (Q := fun e : Scalar × Node => e.2.From ts) fun e he => ?_).bind
                fun entries hentries => ?_
              · refine (ht.scalar? hts (hparts e he).1).bind fun key _ => ?_
                cases key with
                | none => trivial
                | some key => exact (hparts e he).2
              · have hkept := writeKeys_snd (P := fun n => n.From ts) entries []
                  (fun _ he => nomatch he) hentries.2
                refine (Ends.mapM (Q := fun _ => True) fun e he => ?_).bind fun _ _ => trivial
                refine Ends.bind (P := fun _ => True) (Ends.mapError (F := fun _ => True)
                  (Ends.intro (fun _ _ => trivial) fun _ _ => trivial) fun _ _ => trivial) fun _ _ => ?_
                exact (ih (hkept e he)).bind fun _ _ => trivial

end Tree

/-- **The faults of tokens**: the tokens of a text tell why it has no value. -/
theorem read_traced (levels : Nat) (text : String) (hts : Sound (tokens text.toList)) :
    Ends (fun _ => True) (TracedTo (tokens text.toList)) (read levels text) := by
  have hfound := (Tree.ofTokens_from (tokens text.toList)).mono (fun _ h => h)
    (G := TracedTo (tokens text.toList)) fun fault hfault => by
      rcases hfault with rfl | rfl | hbroken
      · trivial
      · trivial
      · exact hts.broken fault hbroken
  unfold read
  refine hfound.bind fun found hfrom => ?_
  cases found with
  | none => trivial
  | some t =>
      exact ((hfrom t rfl).check hts).bind fun _ _ => (hfrom t rfl).unroll hts levels (hfrom t rfl).root

end ApiClientGen.Yaml
