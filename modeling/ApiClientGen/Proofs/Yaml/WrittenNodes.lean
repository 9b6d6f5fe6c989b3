/-
The nodes of JSON text.

The tokens of a portable value form the node that it calls for: no anchors and no tags, every text
a scalar in quotes, every other scalar a plain one.  A node is read in as many levels as the value
has, whatever follows its tokens.
-/
import ApiClientGen.Proofs.Yaml.WrittenScalars
import ApiClientGen.Proofs.Yaml.WrittenTokens

namespace ApiClientGen.Yaml

open ApiClientGen.Document ApiClientGen.Json

/-! ### Nodes of values -/

/-- The node of a scalar. -/
def scalarNode : Scalar → Node
  | .string text => .scalar "" .text text
  | s => .scalar "" .implicit (String.ofList (scalarWord s))

mutual

/-- The node of a value. -/
def node : Value → Node
  | .scalar s => scalarNode s
  | .list items => .sequence "" .implicit (itemNodes items)
  | .mapping fields => .mapping "" .implicit (fieldNodes fields)

/-- The nodes of the items of a list. -/
def itemNodes : List Value → List Node
  | [] => []
  | v :: rest => node v :: itemNodes rest

/-- The nodes of the fields of a mapping. -/
def fieldNodes : List (String × Value) → List (Node × Node)
  | [] => []
  | (k, v) :: rest => (.scalar "" .text k, node v) :: fieldNodes rest

end

/-- So many levels are enough for a value. -/
inductive IsWithin : Nat → Value → Prop where
  | scalar {n : Nat} {s : Scalar} : IsWithin (n + 1) (.scalar s)
  | list {n : Nat} {items : List Value} (h : ∀ v ∈ items, IsWithin n v) :
      IsWithin (n + 1) (.list items)
  | mapping {n : Nat} {fields : List (String × Value)} (h : ∀ e ∈ fields, IsWithin n e.2) :
      IsWithin (n + 1) (.mapping fields)

/-- The levels of a value are enough for any scalar. -/
theorem IsWithin.toScalar {n : Nat} {v : Value} (h : IsWithin n v) (s : Scalar) :
    IsWithin n (.scalar s) := by
  cases h <;> exact .scalar

/-! ### Reading nodes -/

namespace Node

/-- A reader reads the node of a value wherever the tokens of the value stand. -/
def Reads (reader : Reader) (v : Value) : Prop :=
  ∀ (s : State) (rest : List Token), s.tokens = valueTokens v ++ rest →
    reader s = .ok (node v, { s with tokens := rest })

/-- A token that a value begins with. -/
def StartsValue (t : Token) : Prop :=
  (∃ text style, t = .scalar text style) ∨ t = .flowSequenceStart ∨ t = .flowMappingStart

theorem exists_valueTokens (v : Value) : ∃ t ts, valueTokens v = t :: ts ∧ StartsValue t := by
  cases v with
  | scalar s => cases s <;> exact ⟨_, _, rfl, Or.inl ⟨_, _, rfl⟩⟩
  | list items => exact ⟨_, _, rfl, Or.inr (Or.inl rfl)⟩
  | mapping fields => exact ⟨_, _, rfl, Or.inr (Or.inr rfl)⟩

/-- The tokens that neither begin a value nor say that nothing is written. -/
def marks : List Token := [.key, .value, .flowEntry, .flowSequenceEnd, .flowMappingEnd]

theorem StartsValue.ne {t mark : Token} (h : StartsValue t) (hmark : mark ∈ marks) : t ≠ mark := by
  rintro rfl
  simp only [marks, List.mem_cons, List.not_mem_nil, or_false] at hmark
  rcases h with ⟨text, style, rfl⟩ | rfl | rfl <;> simp at hmark

variable {reader : Reader} {s : State} {rest : List Token}

theorem peek_of_tokens {t : Token} {ts : List Token} (h : s.tokens = t :: ts) : s.peek = t := by
  rw [State.peek, h]
  rfl

/-- What stands where a value begins. -/
theorem peek_value {v : Value} (h : s.tokens = valueTokens v ++ rest) : StartsValue s.peek := by
  obtain ⟨t, ts, heq, ht⟩ := exists_valueTokens v
  rw [heq, List.cons_append] at h
  rwa [peek_of_tokens h]

theorem advance_of_tokens {t : Token} {ts : List Token} (h : s.tokens = t :: ts) :
    s.advance = { s with tokens := ts } := by
  rw [State.advance, h]
  rfl

/-! ### Collections -/

/-- The comma in front of every entry but the first. -/
def comma (first : Bool) : List Token := if first then [] else [.flowEntry]

theorem behindComma_ok {first : Bool} {ts : List Token} (h : s.tokens = comma first ++ ts) :
    behindComma first s = .ok { s with tokens := ts } := by
  cases first with
  | true =>
      replace h : s.tokens = ts := h
      subst h
      rfl
  | false =>
      unfold behindComma
      rw [if_neg Bool.false_ne_true, if_pos (peek_of_tokens h), advance_of_tokens h]
      rfl

/-- Where a value or a comma in front of one stands, no bracket closes. -/
theorem peek_ne_of_comma {first : Bool} {v : Value}
    (h : s.tokens = comma first ++ (valueTokens v ++ rest)) {mark : Token} (hmark : mark ∈ marks)
    (hne : mark ≠ .flowEntry) : s.peek ≠ mark := by
  cases first with
  | true => exact (peek_value h).ne hmark
  | false =>
      rw [peek_of_tokens h]
      exact Ne.symm hne

/-- The items of a list are read one by one. -/
theorem flowEntries_items : (vs : List Value) → (∀ v ∈ vs, Reads reader v) →
    ∀ (done : List Node) {s : State} {rest : List Token},
    s.tokens = (if done.isEmpty then itemTokens vs else moreItemTokens vs)
      ++ .flowSequenceEnd :: rest →
    flowEntries reader done s = .ok (done.reverse ++ itemNodes vs, { s with tokens := rest })
  | [], _, done, s, rest, hs => by
      have hend : s.tokens = .flowSequenceEnd :: rest := by
        rw [hs]
        split <;> rfl
      rw [flowEntries, peek_of_tokens hend, if_pos rfl, advance_of_tokens hend]
      simp [itemNodes]
      rfl
  | v :: vs, hvs, done, s, rest, hs => by
      obtain ⟨hv, hvs⟩ := List.forall_mem_cons.mp hvs
      have hcomma : s.tokens = comma done.isEmpty
          ++ (valueTokens v ++ (moreItemTokens vs ++ .flowSequenceEnd :: rest)) := by
        rw [hs]
        cases done <;> simp [comma, itemTokens, moreItemTokens]
      have hstarts := peek_value (s := { s with
        tokens := valueTokens v ++ (moreItemTokens vs ++ .flowSequenceEnd :: rest) }) rfl
      have hread := hv { s with
        tokens := valueTokens v ++ (moreItemTokens vs ++ .flowSequenceEnd :: rest) } _ rfl
      have hend : _ ≠ Token.flowSequenceEnd := hstarts.ne (by decide)
      have hkey : _ ≠ Token.key := hstarts.ne (by decide)
      have hshorter : (moreItemTokens vs ++ .flowSequenceEnd :: rest).length < s.tokens.length := by
        obtain ⟨t, ts, heq, -⟩ := exists_valueTokens v
        rw [hcomma, heq]
        simp
        omega
      rw [flowEntries, if_neg (peek_ne_of_comma hcomma (by decide) (by decide)),
        behindComma_ok hcomma]
      dsimp only [bind, Except.bind]
      rw [if_neg hend, flowEntry, if_neg hkey, hread]
      dsimp only
      rw [if_pos hshorter, flowEntries_items vs hvs (node v :: done) rfl]
      simp [itemNodes]

/-- What begins a value is not nothing. -/
theorem Reads.orEmpty {v : Value} (h : Reads reader v) (ends : List Token)
    (hends : ∀ e ∈ ends, e ∈ marks) : Reads (orEmpty reader ends) v := by
  intro s rest hs
  have hnone : ends.contains s.peek = false := by
    rw [List.contains_eq_mem, decide_eq_false_iff_not]
    exact fun hmem => (peek_value hs).ne (hends _ hmem) rfl
  unfold Node.orEmpty
  rw [hnone]
  exact h s rest hs

theorem valueOrEmpty_of_tokens {ts : List Token} (h : s.tokens = .value :: ts) (ends : List Token) :
    valueOrEmpty reader ends s = Node.orEmpty reader ends { s with tokens := ts } := by
  unfold valueOrEmpty
  rw [peek_of_tokens h, advance_of_tokens h]

/-- A field is read as its key and its value. -/
theorem flowPair_field {k : String} (hk : Reads reader (.scalar (.string k))) {v : Value}
    (hv : Reads reader v)
    (hs : s.tokens = [.key, .scalar k .quoted, .value] ++ (valueTokens v ++ rest)) :
    flowPair reader s = .ok ((.scalar "" .text k, node v), { s with tokens := rest }) := by
  have hkey := hk.orEmpty [.value, .flowEntry, .flowMappingEnd] (by decide)
    s.advance (.value :: (valueTokens v ++ rest)) (by rw [advance_of_tokens hs]; rfl)
  have hvalue := hv.orEmpty [.flowEntry, .flowMappingEnd] (by decide)
    { s with tokens := valueTokens v ++ rest } rest rfl
  unfold flowPair
  rw [if_pos (peek_of_tokens hs), hkey]
  dsimp only [bind, Except.bind]
  rw [valueOrEmpty_of_tokens rfl]
  show (Node.orEmpty reader _ { s with tokens := valueTokens v ++ rest } >>= _) = _
  rw [hvalue]
  rfl

/-- The fields of a mapping are read one by one. -/
theorem flowPairs_fields : (fs : List (String × Value)) →
    (∀ e ∈ fs, Reads reader (.scalar (.string e.1))) → (∀ e ∈ fs, Reads reader e.2) →
    ∀ (done : List (Node × Node)) {s : State} {rest : List Token},
    s.tokens = (if done.isEmpty then fieldTokens fs else moreFieldTokens fs)
      ++ .flowMappingEnd :: rest →
    flowPairs reader done s = .ok (done.reverse ++ fieldNodes fs, { s with tokens := rest })
  | [], _, _, done, s, rest, hs => by
      have hend : s.tokens = .flowMappingEnd :: rest := by
        rw [hs]
        split <;> rfl
      rw [flowPairs, peek_of_tokens hend, if_pos rfl, advance_of_tokens hend]
      simp [fieldNodes]
      rfl
  | (k, v) :: fs, hkeys, hvs, done, s, rest, hs => by
      obtain ⟨hk, hkeys⟩ := List.forall_mem_cons.mp hkeys
      obtain ⟨hv, hvs⟩ := List.forall_mem_cons.mp hvs
      have hcomma : s.tokens = comma done.isEmpty ++ ([.key, .scalar k .quoted, .value]
          ++ (valueTokens v ++ (moreFieldTokens fs ++ .flowMappingEnd :: rest))) := by
        rw [hs]
        cases done <;> simp [comma, fieldTokens, moreFieldTokens]
      have hopen : s.peek ≠ .flowMappingEnd := by
        cases done <;> simp [peek_of_tokens hcomma]
      have hread := flowPair_field hk hv (s := { s with tokens := [.key, .scalar k .quoted, .value]
        ++ (valueTokens v ++ (moreFieldTokens fs ++ .flowMappingEnd :: rest)) }) rfl
      have hshorter : (moreFieldTokens fs ++ .flowMappingEnd :: rest).length < s.tokens.length := by
        rw [hcomma]
        simp
        omega
      rw [flowPairs, if_neg hopen, behindComma_ok hcomma]
      dsimp only [bind, Except.bind]
      rw [if_neg (by simp [State.peek]), hread]
      dsimp only
      rw [if_pos hshorter, flowPairs_fields fs hkeys hvs ((.scalar "" .text k, node v) :: done) rfl]
      simp [fieldNodes]

/-! ### Values -/

variable {level : Nat} {block indentless : Bool} {ts : List Token}

/-- A scalar without an anchor and a tag. -/
theorem read_scalar {text : String} {style : Style} (hs : s.tokens = .scalar text style :: ts) :
    read (level + 1) block indentless s
      = .ok (.scalar "" (scalarTag none style) text, { s with tokens := ts }) := by
  cases s
  cases hs
  rfl

/-- A sequence without an anchor and a tag. -/
theorem read_sequence (hs : s.tokens = .flowSequenceStart :: ts) {ns : List Node} {next : State}
    (hitems : flowEntries (read level false false) [] s.advance = .ok (ns, next)) :
    read (level + 1) block indentless s = .ok (.sequence "" .implicit ns, next) := by
  cases s
  cases hs
  show (flowEntries (read level false false) [] _ >>= _) = _
  rw [hitems]
  rfl

/-- A mapping without an anchor and a tag. -/
theorem read_mapping (hs : s.tokens = .flowMappingStart :: ts) {es : List (Node × Node)}
    {next : State}
    (hfields : flowPairs (read level false false) [] s.advance = .ok (es, next)) :
    read (level + 1) block indentless s = .ok (.mapping "" .implicit es, next) := by
  cases s
  cases hs
  show (flowPairs (read level false false) [] _ >>= _) = _
  rw [hfields]
  rfl

/-- **The tokens of a value** are read as its node, if the reader has levels enough. -/
theorem read_value {n level : Nat} {v : Value} (hv : IsWithin n v) (hlevel : n ≤ level)
    (block indentless : Bool) : Reads (read level block indentless) v := by
  induction n generalizing level v block indentless with
  | zero => cases hv
  | succ n ih =>
      obtain ⟨level, rfl⟩ := Nat.exists_eq_add_one_of_ne_zero (Nat.ne_zero_of_lt hlevel)
      intro s rest hs
      cases hv with
      | @scalar _ x =>
          cases x <;> exact read_scalar hs
      | @list _ items h =>
          rw [valueTokens, List.cons_append, List.append_assoc] at hs
          refine read_sequence hs ?_
          rw [advance_of_tokens hs]
          exact flowEntries_items items
            (fun v hv => ih (h v hv) (Nat.le_of_succ_le_succ hlevel) false false) [] rfl
      | @mapping _ fields h =>
          rw [valueTokens, List.cons_append, List.append_assoc] at hs
          refine read_mapping hs ?_
          rw [advance_of_tokens hs]
          refine flowPairs_fields fields (fun e he => ?_)
            (fun e he => ih (h e he) (Nat.le_of_succ_le_succ hlevel) false false) [] rfl
          exact ih ((h e he).toScalar _) (Nat.le_of_succ_le_succ hlevel) false false

end Node

/-- The tree of a value: its node, and no anchors. -/
def treeOf (v : Value) : Tree := { root := node v, anchored := [] }

/-- **The tokens of a document** that is a value form the tree of the value. -/
theorem ofTokens_value {n : Nat} {v : Value} (hv : IsWithin n v) (hlevel : n ≤ Node.levelLimit) :
    Tree.ofTokens (valueTokens v ++ [.streamEnd]) = .ok (some (treeOf v)) := by
  have hread := Node.read_value hv hlevel true false
    { tokens := valueTokens v ++ [.streamEnd], handles := Tree.commonHandles } [.streamEnd] rfl
  have hsingle : Tree.single Tree.commonHandles (valueTokens v ++ [.streamEnd])
      = .ok (treeOf v) := by
    unfold Tree.single
    rw [hread]
    rfl
  obtain ⟨t, ts, heq, hstart⟩ := Node.exists_valueTokens v
  rw [heq, List.cons_append] at hsingle ⊢
  rcases hstart with ⟨text, style, rfl⟩ | rfl | rfl
  all_goals
    show (Tree.single Tree.commonHandles _ >>= _) = _
    rw [hsingle]
    rfl

end ApiClientGen.Yaml
