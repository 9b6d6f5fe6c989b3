/-
Values that are written out.

Aliases make a graph of the nodes of a text, and one that leads back into itself makes it endless.
The value is written out of it level by level, to one level more than a document may have.  So
this fails where a node lies too deep, which in an endless graph some node does, or where a key has
no text; and what is written out otherwise has a value with texts as keys.  The depth of a node is
counted along the steps that lead to it, and one induction on the levels gives both directions.
-/
import ApiClientGen.Proofs.Document.PlainValues
import ApiClientGen.Proofs.Document.Related
import ApiClientGen.Proofs.Yaml.ScalarFaults
import ApiClientGen.Yaml.Reader

namespace ApiClientGen.Yaml

open ApiClientGen.Document ApiClientGen.Number

/-! ### The graph of the nodes -/

/-- What a node stands for: a scalar, or the nodes of a collection. -/
inductive Content where
  | scalar (s : Scalar)
  | items (ns : List Node)
  | entries (es : List (Scalar × Node))

namespace Tree

variable {t : Tree} {n m : Node} {ns : List Node} {es : List (Scalar × Node)} {k level : Nat}

/-- The entries of a mapping under their keys, each key once. -/
def keyed (t : Tree) (es : List (Node × Node)) : Except Fault (List (Scalar × Node)) := do
  let entries ← es.mapM fun e => do
    match ← t.scalar? e.1 with
    | some key => return (key, e.2)
    | none => throw .malformed
  return entries.foldl (fun acc e => writeKey acc e.1 e.2) []

/-- What a node stands for in a tree. -/
def content (t : Tree) (n : Node) : Except Fault Content := do
  match ← t.scalar? n with
  | some s => return .scalar s
  | none =>
    match ← t.parts n with
    | .items ns => return .items ns
    | .entries es => return .entries (← t.keyed es)

/-- An entry of a value, if its key has a text. -/
def unrollEntry (t : Tree) (level : Nat) (e : Scalar × Node) :
    Except Fault (Scalar × RawValue) := do
  let _ ← e.1.keyText.mapError .raw
  return (e.1, ← t.unroll level e.2)

/-- A value is made of what its node stands for, with the parts one level less. -/
theorem unroll_succ (level : Nat) (n : Node) :
    t.unroll (level + 1) n = t.content n >>= fun
      | .scalar s => return .scalar s
      | .items ns => return .list (← ns.mapM (t.unroll level))
      | .entries es => return .mapping (← es.mapM (t.unrollEntry level)) := by
  unfold unroll content keyed
  cases t.scalar? n with
  | error fault => rfl
  | ok value =>
      cases value with
      | some s => rfl
      | none =>
          cases t.parts n with
          | error fault => rfl
          | ok parts =>
              cases parts with
              | items ns => rfl
              | entries es =>
                  show (_ >>= _ : Except Fault RawValue)
                    = ((_ >>= _ : Except Fault (List (Scalar × Node))) >>= fun es =>
                        pure (Content.entries es)) >>= _
                  rw [bind_assoc, bind_assoc]
                  rfl

/-! ### Faults of the text -/

/-- A fault of the text itself, which is not that its value is none of a document. -/
def IsOfText (fault : Fault) : Prop := ∀ raw, fault ≠ .raw raw

theorem ends_mergedEntries (fuel : Nat) (around : List String) (anchor : String)
    (entries : List (Node × Node)) :
    Ends (fun _ => True) IsOfText (t.mergedEntries fuel around anchor entries) := by
  induction fuel generalizing around anchor entries with
  | zero => trivial
  | succ fuel ih =>
      rw [mergedEntries]
      split
      · trivial
      refine (Ends.mapM (Q := fun _ => True) fun e _ => ?_).bind fun _ _ => trivial
      split
      · exact ih _ _ _
      · refine (Ends.mapM (Q := fun _ => True) fun item _ => ?_).bind fun _ _ => trivial
        split
        · exact ih _ _ _
        · exact nofun
      · exact nofun

theorem ends_scalarText (fuel : Nat) (n : Node) :
    Ends (fun _ => True) IsOfText (t.scalarText fuel n) := by
  induction fuel generalizing n with
  | zero => exact nofun
  | succ fuel ih =>
      rw [scalarText]
      split
      · trivial
      · split
        · exact ih _
        · exact nofun
      · exact nofun

theorem ends_scalarOf (kind : Kind) (text : String) :
    Ends (fun _ => True) IsOfText (scalarOf kind text) := by
  refine (scalarOf_ends kind text).mono (fun _ h => h) fun fault hfault raw => ?_
  rintro rfl
  exact hfault

theorem ends_scalar? (n : Node) : Ends (fun _ => True) IsOfText (t.scalar? n) := by
  have hnamed : ∀ (kind : Kind) (n : Node), Ends (fun _ => True) IsOfText (do
      let text ← t.scalarText t.bound n
      if kind = .timestamp then throw .timestampMapping
      return some (← scalarOf kind text)) := by
    intro kind n
    refine (ends_scalarText t.bound n).bind fun text _ => ?_
    split
    · exact nofun
    · exact (ends_scalarOf kind text).bind fun _ _ => trivial
  unfold scalar?
  dsimp only
  generalize t.target n = n'
  cases n' with
  | scalar anchor tag text =>
      dsimp only
      split
      iterate 2 trivial
      iterate 3 exact nofun
      exact (ends_scalarOf _ _).bind fun _ _ => trivial
  | sequence anchor tag items =>
      dsimp only
      split
      iterate 2 trivial
      iterate 3 exact nofun
      exact hnamed _ _
  | mapping anchor tag entries =>
      dsimp only
      split
      iterate 2 trivial
      iterate 3 exact nofun
      exact hnamed _ _
  | «alias» name => exact hnamed .null _

theorem ends_parts (n : Node) : Ends (fun _ => True) IsOfText (t.parts n) := by
  unfold parts
  split
  · split
    · trivial
    · exact nofun
  · split
    · exact (ends_mergedEntries _ _ _ _).map fun _ _ => trivial
    · exact nofun
  · exact nofun

theorem ends_content (n : Node) : Ends (fun _ => True) IsOfText (t.content n) := by
  refine (ends_scalar? n).bind fun value _ => ?_
  cases value with
  | some s => trivial
  | none =>
      refine (ends_parts n).bind fun parts _ => ?_
      cases parts with
      | items ns => trivial
      | entries es =>
          refine Ends.bind (P := fun _ => True) ?_ fun _ _ => trivial
          refine (Ends.mapM (Q := fun _ => True) fun e _ => ?_).bind fun _ _ => trivial
          refine (ends_scalar? e.1).bind fun key _ => ?_
          cases key with
          | some key => trivial
          | none => exact nofun

theorem ends_innerCollections (n : Node) :
    Ends (fun _ => True) IsOfText (t.innerCollections n) := by
  refine (ends_parts n).bind fun parts _ => ?_
  cases parts with
  | items ns =>
      refine (Ends.filterM (P := fun _ => True) fun m _ => ?_).mono (fun _ _ => trivial) fun _ h => h
      exact (ends_scalar? m).bind fun _ _ _ => trivial
  | entries es =>
      refine (Ends.filterM (P := fun _ => True) fun e _ => ?_).bind fun _ _ => trivial
      refine (ends_scalar? e.1).bind fun key _ => ?_
      cases key with
      | none => exact nofun
      | some key => exact (ends_scalar? e.2).bind fun _ _ _ => trivial

theorem ends_checkLevels (fuel : Nat) (seen : List String) (ns : List Node) :
    Ends (fun _ => True) IsOfText (t.checkLevels fuel seen ns) := by
  fun_induction Tree.checkLevels t fuel seen ns with
  | case1 => trivial
  | case2 => trivial
  | case3 fuel seen n rest anchor hseen ih => exact ih
  | case4 fuel seen n rest anchor hseen ih =>
      exact (ends_innerCollections n).bind fun inner _ => ih inner

theorem ends_check : Ends (fun _ => True) IsOfText t.check := by
  refine (ends_scalar? t.root).bind fun value _ => ?_
  cases value with
  | some value => trivial
  | none => exact ends_checkLevels _ _ _

/-! ### Where steps lead -/

/-- Some steps lead from a node to another one, through collections and aliases. -/
inductive LeadsTo (t : Tree) : Node → Nat → Node → Prop where
  | self (n : Node) : LeadsTo t n 0 n
  | item {n m w : Node} {ns : List Node} {k : Nat} (hn : t.content n = .ok (.items ns))
      (hm : m ∈ ns) (h : LeadsTo t m k w) : LeadsTo t n (k + 1) w
  | entry {n w : Node} {es : List (Scalar × Node)} {e : Scalar × Node} {k : Nat}
      (hn : t.content n = .ok (.entries es)) (he : e ∈ es) (h : LeadsTo t e.2 k w) :
      LeadsTo t n (k + 1) w

/-- A mapping that a node leads to has a key without a text. -/
def HasLongKey (t : Tree) (n : Node) : Prop :=
  ∃ k m es, t.LeadsTo n k m ∧ t.content m = .ok (.entries es) ∧ ∃ e ∈ es, e.1.IsLong

/-- The value of a node, if it is not endless. -/
inductive WritesOut (t : Tree) : Node → RawValue → Prop where
  | scalar {n : Node} {s : Scalar} (hn : t.content n = .ok (.scalar s)) : WritesOut t n (.scalar s)
  | list {n : Node} {ns : List Node} {vs : List RawValue} (hn : t.content n = .ok (.items ns))
      (h : List.Forall₂ (WritesOut t) ns vs) : WritesOut t n (.list vs)
  | mapping {n : Node} {es : List (Scalar × Node)} {entries : List (Scalar × RawValue)}
      (hn : t.content n = .ok (.entries es)) (keys : es.map Prod.fst = entries.map Prod.fst)
      (h : List.Forall₂ (fun e f => WritesOut t e.2 f.2) es entries) :
      WritesOut t n (.mapping entries)

/-- What keeps a node from being written out to some levels. -/
def IsFaulty (t : Tree) (level : Nat) (n : Node) : RawFault → Prop
  | .tooDeep => ∃ k m, t.LeadsTo n k m ∧ level ≤ k
  | .longKey => t.HasLongKey n

variable {fault : RawFault}

theorem IsFaulty.of_item (hn : t.content n = .ok (.items ns)) (hm : m ∈ ns)
    (h : t.IsFaulty level m fault) : t.IsFaulty (level + 1) n fault := by
  cases fault with
  | tooDeep =>
      obtain ⟨k, w, hlead, hdeep⟩ := h
      exact ⟨k + 1, w, .item hn hm hlead, Nat.succ_le_succ hdeep⟩
  | longKey =>
      obtain ⟨k, w, es, hlead, hlong⟩ := h
      exact ⟨k + 1, w, es, .item hn hm hlead, hlong⟩

theorem IsFaulty.of_entry (hn : t.content n = .ok (.entries es)) {e : Scalar × Node} (he : e ∈ es)
    (h : (fault = .longKey ∧ e.1.IsLong) ∨ t.IsFaulty level e.2 fault) :
    t.IsFaulty (level + 1) n fault := by
  rcases h with ⟨rfl, hlong⟩ | h
  · exact ⟨0, n, es, .self n, hn, e, he, hlong⟩
  · cases fault with
    | tooDeep =>
        obtain ⟨k, w, hlead, hdeep⟩ := h
        exact ⟨k + 1, w, .entry hn he hlead, Nat.succ_le_succ hdeep⟩
    | longKey =>
        obtain ⟨k, w, es', hlead, hlong⟩ := h
        exact ⟨k + 1, w, es', .entry hn he hlead, hlong⟩

/-- A node that is written out has no fault, if its parts have none. -/
theorem not_isFaulty_of_content {content : Content} (hn : t.content n = .ok content)
    (hitems : ∀ ns, content = .items ns → ∀ m ∈ ns, ∀ fault, ¬ t.IsFaulty level m fault)
    (hentries : ∀ es, content = .entries es →
      ∀ e ∈ es, ¬ e.1.IsLong ∧ ∀ fault, ¬ t.IsFaulty level e.2 fault) :
    ¬ t.IsFaulty (level + 1) n fault := by
  cases fault with
  | tooDeep =>
      rintro ⟨k, w, hlead, hdeep⟩
      cases hlead with
      | self => exact absurd hdeep (Nat.not_succ_le_zero level)
      | item hn' hm hlead =>
          cases hn.symm.trans hn'
          exact hitems _ rfl _ hm .tooDeep ⟨_, w, hlead, Nat.le_of_succ_le_succ hdeep⟩
      | entry hn' he hlead =>
          cases hn.symm.trans hn'
          exact (hentries _ rfl _ he).2 .tooDeep ⟨_, w, hlead, Nat.le_of_succ_le_succ hdeep⟩
  | longKey =>
      rintro ⟨k, w, es', hlead, hw, e, he, hlong⟩
      cases hlead with
      | self =>
          cases hn.symm.trans hw
          exact (hentries _ rfl e he).1 hlong
      | item hn' hm hlead =>
          cases hn.symm.trans hn'
          exact hitems _ rfl _ hm .longKey ⟨_, w, es', hlead, hw, e, he, hlong⟩
      | entry hn' he' hlead =>
          cases hn.symm.trans hn'
          exact (hentries _ rfl _ he').2 .longKey ⟨_, w, es', hlead, hw, e, he, hlong⟩

/-! ### Writing out -/

/-- How a node is written out to some levels: with its value, or with what is in the way of that. -/
def Unrolls (t : Tree) (level : Nat) (n : Node) : Except Fault RawValue → Prop :=
  Ends (fun v => t.WritesOut n v ∧ ∀ fault, ¬ t.IsFaulty level n fault)
    fun found => ∀ fault, found = .raw fault → t.IsFaulty level n fault

theorem ends_unrollEntry (h : ∀ n, t.Unrolls level n (t.unroll level n)) (e : Scalar × Node) :
    Ends (fun f => (e.1 = f.1 ∧ t.WritesOut e.2 f.2)
        ∧ ¬ e.1.IsLong ∧ ∀ fault, ¬ t.IsFaulty level e.2 fault)
      (fun found => ∀ fault, found = .raw fault →
        (fault = .longKey ∧ e.1.IsLong) ∨ t.IsFaulty level e.2 fault) (t.unrollEntry level e) := by
  refine (Ends.mapError (ends_keyText e.1) ?_).bind fun text htext => ?_
  · rintro found hfound fault heq
    cases heq
    exact .inl hfound
  · refine ((h e.2).mono (fun _ hv => hv) fun found hfound fault heq =>
      .inr (hfound fault heq)).bind fun v hv => ?_
    exact ⟨⟨rfl, hv.1⟩, htext.2, hv.2⟩

theorem unrolls_unroll (level : Nat) (n : Node) : t.Unrolls level n (t.unroll level n) := by
  induction level generalizing n with
  | zero =>
      rintro fault heq
      cases heq
      exact ⟨0, n, .self n, Nat.le_refl 0⟩
  | succ level ih =>
      rw [unroll_succ]
      refine Ends.bind (P := fun content => t.content n = .ok content)
        (Ends.intro (fun _ hn => hn) fun found hfound fault heq =>
          absurd heq ((ends_content n).of_error hfound fault)) fun content hn => ?_
      cases content with
      | scalar s => exact ⟨.scalar hn, fun fault => not_isFaulty_of_content hn nofun nofun⟩
      | items ns =>
          refine (Ends.mapM_forall₂ fun m hm => (ih m).mono (fun _ hv => hv) fun found hfound
            (fault : RawFault) heq => (hfound fault heq).of_item hn hm).bind fun vs hvs => ?_
          refine ⟨.list hn (hvs.imp fun _ _ hv => hv.1), fun fault =>
            not_isFaulty_of_content hn ?_ nofun⟩
          rintro ns ⟨⟩ m hm
          obtain ⟨v, -, hv⟩ := exists_of_forall₂_left hvs hm
          exact hv.2
      | entries es =>
          refine (Ends.mapM_forall₂ fun e he => (ends_unrollEntry ih e).mono (fun _ hf => hf)
            fun found hfound (fault : RawFault) heq =>
              IsFaulty.of_entry hn he (hfound fault heq)).bind fun entries hentries => ?_
          have hkeys : es.map Prod.fst = entries.map Prod.fst :=
            List.forall₂_eq_eq_eq ▸ List.forall₂_map_left_iff.mpr
              (List.forall₂_map_right_iff.mpr (hentries.imp fun e f hf => hf.1.1))
          refine ⟨.mapping hn hkeys (hentries.imp fun _ _ hf => hf.1.2), fun fault =>
            not_isFaulty_of_content hn nofun ?_⟩
          rintro es ⟨⟩ e he
          obtain ⟨f, -, hf⟩ := exists_of_forall₂_left hentries he
          exact hf.2

/-! ### What was written out, with texts as keys -/

variable {v w : RawValue}

/-- The parts of a value are what the nodes stand for that steps lead to. -/
theorem WritesOut.exists_leadsTo (h : t.WritesOut n v) (hpart : v.PartAt k w) :
    ∃ m, t.LeadsTo n k m ∧ t.WritesOut m w := by
  induction hpart generalizing n with
  | self v => exact ⟨n, .self n, h⟩
  | item hv _ ih =>
      cases h with
      | list hn hitems =>
          obtain ⟨m, hm, hwritten⟩ := exists_of_forall₂_right hitems hv
          obtain ⟨w, hlead, hw⟩ := ih hwritten
          exact ⟨w, .item hn hm hlead, hw⟩
  | entry he _ ih =>
      cases h with
      | mapping hn hkeys hentries =>
          obtain ⟨e, he, hwritten⟩ := exists_of_forall₂_right hentries he
          obtain ⟨w, hlead, hw⟩ := ih hwritten
          exact ⟨w, .entry hn he hlead, hw⟩

theorem WritesOut.hasLongKey (h : t.WritesOut n v) (hlong : v.HasLongKey) : t.HasLongKey n := by
  obtain ⟨k, entries, hpart, f, hf, hlong⟩ := hlong
  obtain ⟨m, hlead, hm⟩ := h.exists_leadsTo hpart
  cases hm with
  | @mapping _ es _ hm hkeys _ =>
      have hkey : f.1 ∈ es.map Prod.fst := hkeys ▸ List.mem_map_of_mem hf
      obtain ⟨e, he, heq⟩ := List.mem_map.mp hkey
      exact ⟨k, m, es, hlead, hm, e, he, heq ▸ hlong⟩

/-- What is written out without a fault has a value with texts as keys. -/
theorem WritesOut.exists_plain (h : t.WritesOut n v)
    (hnone : ∀ fault, ¬ t.IsFaulty (depthLimit + 1) n fault) : ∃ r, v.plain 0 = .ok r := by
  have hends := ends_plain v 0
  cases hplain : v.plain 0 with
  | ok r => exact ⟨r, rfl⟩
  | error fault =>
      have hfault := hends.of_error hplain
      cases fault with
      | tooDeep =>
          obtain ⟨k, w, hpart, hdeep⟩ := hfault
          obtain ⟨m, hlead, -⟩ := h.exists_leadsTo hpart
          rw [Nat.zero_add] at hdeep
          exact absurd ⟨k, m, hlead, hdeep⟩ (hnone .tooDeep)
      | longKey => exact absurd (h.hasLongKey hfault) (hnone .longKey)

/-- A node that is written out to the levels of a document has no fault, and others have one. -/
theorem unroll_cases (n : Node) :
    (∃ v, t.unroll (depthLimit + 1) n = .ok v ∧ t.WritesOut n v
        ∧ ∀ fault, ¬ t.IsFaulty (depthLimit + 1) n fault)
      ∨ ∃ found, t.unroll (depthLimit + 1) n = .error found
        ∧ ∀ fault, found = .raw fault → t.IsFaulty (depthLimit + 1) n fault := by
  have hunrolls := t.unrolls_unroll (depthLimit + 1) n
  unfold Unrolls at hunrolls
  cases hunroll : t.unroll (depthLimit + 1) n with
  | ok v => exact .inl ⟨v, rfl, hunrolls.of_ok hunroll⟩
  | error found => exact .inr ⟨found, rfl, hunrolls.of_error hunroll⟩

end Tree

/-! ### Values of documents -/

/-- There are two faults, and one of them is there if a value has one. -/
theorem exists_isFaulty_iff {t : Tree} {n : Node} :
    (∃ fault, t.IsFaulty (depthLimit + 1) n fault)
      ↔ (∃ k m, t.LeadsTo n k m ∧ depthLimit < k) ∨ t.HasLongKey n := by
  constructor
  · rintro ⟨fault, h⟩
    cases fault with
    | tooDeep => exact .inl h
    | longKey => exact .inr h
  · rintro (h | h)
    · exact ⟨.tooDeep, h⟩
    · exact ⟨.longKey, h⟩

/-- A text without a fault of its own has the value that is written out, or a fault of that. -/
theorem read_cases {text : String} {t : Tree}
    (htree : Tree.ofTokens (tokens text.toList) = .ok (some t))
    (hown : ∀ found, read (depthLimit + 1) text = .error found → ∃ fault, found = .raw fault) :
    (∃ v, read (depthLimit + 1) text = .ok v ∧ t.WritesOut t.root v
        ∧ ∀ fault, ¬ t.IsFaulty (depthLimit + 1) t.root fault)
      ∨ ∃ fault, read (depthLimit + 1) text = .error (.raw fault)
        ∧ t.IsFaulty (depthLimit + 1) t.root fault := by
  have hread : read (depthLimit + 1) text
      = t.check >>= fun _ => t.unroll (depthLimit + 1) t.root := by
    rw [read, htree]
    rfl
  cases hcheck : t.check with
  | error found =>
      have hfound : read (depthLimit + 1) text = .error found := by
        rw [hread, hcheck]
        rfl
      obtain ⟨fault, rfl⟩ := hown found hfound
      exact absurd rfl (Tree.ends_check.of_error hcheck fault)
  | ok _ =>
      have hsame : read (depthLimit + 1) text = t.unroll (depthLimit + 1) t.root := by
        rw [hread, hcheck]
        rfl
      rw [hsame] at hown ⊢
      rcases t.unroll_cases t.root with hwritten | ⟨found, hfound, hfaults⟩
      · exact .inl hwritten
      · obtain ⟨fault, rfl⟩ := hown found hfound
        exact .inr ⟨fault, hfound, hfaults fault rfl⟩

/--
**When a value that was read becomes one of a document.**  That fails if and only if a part lies
too deep or a key has no text; otherwise the outcome says what was read, and is its own outcome.
In YAML the value is a graph of nodes, which may be endless: if the text has no fault of its own,
its value is refused if and only if some steps lead too deep or to a key without a text, and
otherwise the value that is written out of the graph becomes one of a document.
-/
theorem plain_value_exact (v : RawValue) :
    (((∃ fault, v.plain 0 = .error fault)
          ↔ (∃ k w, v.PartAt k w ∧ depthLimit < k) ∨ v.HasLongKey)
        ∧ ∀ r, v.plain 0 = .ok r → Restates v r ∧ r.raw.plain 0 = .ok r)
      ∧ ∀ text t, Tree.ofTokens (tokens text.toList) = .ok (some t) →
        (∀ found, read (depthLimit + 1) text = .error found → ∃ fault, found = .raw fault) →
          ((∃ fault, read (depthLimit + 1) text = .error (.raw fault))
              ↔ (∃ k m, t.LeadsTo t.root k m ∧ depthLimit < k) ∨ t.HasLongKey t.root)
            ∧ (read (depthLimit + 1) text = .ok v →
              t.WritesOut t.root v ∧ ∃ r, v.plain 0 = .ok r) := by
  refine ⟨⟨exists_fault_iff v, fun r hr => ((ends_plain v 0).of_ok hr).1⟩,
    fun text t htree hown => ?_⟩
  rw [← exists_isFaulty_iff]
  rcases read_cases htree hown with ⟨w, hw, hwritten, hnone⟩ | ⟨fault, hfault, hfaulty⟩
  · rw [hw]
    refine ⟨iff_of_false (fun ⟨_, h⟩ => nomatch h) (fun ⟨fault, h⟩ => hnone fault h), ?_⟩
    rintro ⟨⟩
    exact ⟨hwritten, hwritten.exists_plain hnone⟩
  · rw [hfault]
    exact ⟨iff_of_true ⟨fault, rfl⟩ ⟨fault, hfaulty⟩, nofun⟩

theorem exists_tree (text : String)
    (h : Ends (fun t => t.isSome) (fun _ => False) (Tree.ofTokens (tokens text.toList))) :
    ∃ t, Tree.ofTokens (tokens text.toList) = .ok (some t) := by
  cases htree : Tree.ofTokens (tokens text.toList) with
  | error fault => exact absurd (h.of_error htree) id
  | ok t => exact ⟨t.get (h.of_ok htree), by rw [Option.some_get]⟩

/-- A list under two keys, one of which comes once more as a text. -/
def sharedText : String := "a: &x [1]\n7: *x\n'7': [2]\n"

/-- What the text stands for with texts as keys. -/
def sharedResult : Value :=
  .mapping [("a", .list [.scalar (.int 1)]), ("7", .list [.scalar (.int 2)])]

/-- A list that is its own item. -/
def endlessText : String := "&a [*a]\n"

theorem plain_value_sharedText :
    (∃ t v, Tree.ofTokens (tokens sharedText.toList) = .ok (some t) ∧ t.WritesOut t.root v
        ∧ v.plain 0 = .ok sharedResult ∧ Restates v sharedResult
        ∧ sharedResult.raw.plain 0 = .ok sharedResult)
      ∧ ∃ t, Tree.ofTokens (tokens endlessText.toList) = .ok (some t)
        ∧ ((∃ k m, t.LeadsTo t.root k m ∧ depthLimit < k) ∨ t.HasLongKey t.root) := by
  constructor
  · obtain ⟨t, ht⟩ := exists_tree sharedText (by decide +kernel)
    have hvalue : Ends (fun v => Ends (fun r => r = sharedResult) (fun _ => False) (v.plain 0))
        (fun _ => False) (read (depthLimit + 1) sharedText) := by decide +kernel
    cases hread : read (depthLimit + 1) sharedText with
    | error fault => exact absurd (hvalue.of_error hread) id
    | ok v =>
        have hown : ∀ found, read (depthLimit + 1) sharedText = .error found →
            ∃ fault, found = .raw fault := by
          rw [hread]
          nofun
        obtain ⟨hwritten, r, hr⟩ := ((plain_value_exact v).2 sharedText t ht hown).2 hread
        obtain rfl := (hvalue.of_ok hread).of_ok hr
        exact ⟨t, v, ht, hwritten, hr, (plain_value_exact v).1.2 _ hr⟩
  · obtain ⟨t, ht⟩ := exists_tree endlessText (by decide +kernel)
    have hfault : Ends (fun _ => False) (fun found => found = .raw .tooDeep)
        (read (depthLimit + 1) endlessText) := by decide +kernel
    have hown : ∀ found, read (depthLimit + 1) endlessText = .error found →
        ∃ fault, found = .raw fault :=
      fun found hfound => ⟨_, hfault.of_error hfound⟩
    cases hread : read (depthLimit + 1) endlessText with
    | ok v => exact absurd (hfault.of_ok hread) id
    | error found =>
        obtain rfl := hfault.of_error hread
        exact ⟨t, ht, ((plain_value_exact default).2 endlessText t ht hown).1.mp ⟨_, hread⟩⟩

theorem partAt_singleEntry {key s : Scalar} {k : Nat} {w : RawValue}
    (h : RawValue.PartAt (.mapping [(key, .scalar s)]) k w) : k ≤ 1 := by
  cases h with
  | self => exact Nat.zero_le 1
  | entry he h =>
      cases List.mem_singleton.mp he
      cases h
      exact Nat.le_refl 1

theorem hasLongKey_singleEntry {key s : Scalar} (h : key.IsLong) :
    RawValue.HasLongKey (.mapping [(key, .scalar s)]) :=
  ⟨0, _, .self _, _, List.mem_singleton_self _, h⟩

/-- A mapping whose only key has no text is refused, though no part of it lies too deep. -/
theorem not_only_depth_longKey :
    ¬ ∀ v : RawValue,
      (∃ fault, v.plain 0 = .error fault) ↔ ∃ k w, v.PartAt k w ∧ depthLimit < k := by
  intro h
  have hlong : ∀ limit, (Nat.pow 10 limit ≤ (Int.ofNat (Nat.pow 10 limit)).natAbs : Bool) = true :=
    fun limit => decide_eq_true (Nat.le_refl _)
  have hkey : (Scalar.int (Int.ofNat (Nat.pow 10 digitLimit))).IsLong := by
    rw [Scalar.IsLong, exceedsDigits, hlong]
  have hrefused := (exists_fault_iff _).mpr (.inr (hasLongKey_singleEntry (s := .null) hkey))
  obtain ⟨k, w, hpart, hdeep⟩ := (h _).mp hrefused
  exact absurd (Nat.lt_of_lt_of_le hdeep (partAt_singleEntry hpart)) (by decide)

end ApiClientGen.Yaml
