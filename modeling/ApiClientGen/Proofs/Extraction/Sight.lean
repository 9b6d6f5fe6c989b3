/-
What is seen of a document.

A scope stays within a document if whatever stands behind a node of the document is a node of
it.  Then all that is ever looked at from there are nodes of the document: its fields, its
items, the parts of its schemas and their properties.  A value as a whole is found at as many
levels as the document has values, and more levels find the same value.
-/
import ApiClientGen.Extraction.Spec
import ApiClientGen.Proofs.Reference.Chains

namespace ApiClientGen.Extraction

open ApiClientGen.Document ApiClientGen.Reference

/-! ### Nodes of a document -/

/-- A node that may be missing is one of the document. -/
def LocatedOption (document : Value) (n : Option Node) : Prop :=
  ∀ m, n = some m → Located document m

/-- All nodes of a list are nodes of the document. -/
def LocatedList (document : Value) (ns : List Node) : Prop := ∀ n ∈ ns, Located document n

/-- All nodes of a table are nodes of the document. -/
def LocatedFields (document : Value) (fields : Fields Node) : Prop :=
  ∀ e ∈ fields, Located document e.2

section

variable {document : Value} {fields more : Fields Node}

theorem locatedOption_some {n : Node} (h : Located document n) :
    LocatedOption document (some n) := by
  rintro m ⟨⟩
  exact h

theorem LocatedFields.get? (h : LocatedFields document fields) (key : String) :
    LocatedOption document (Fields.get? fields key) :=
  fun _ hm => h _ (Fields.mem_of_get? hm)

theorem LocatedFields.update (h : LocatedFields document fields)
    (hmore : LocatedFields document more) : LocatedFields document (Fields.update fields more) := by
  intro e he
  rcases Fields.mem_update he with hold | hnew
  · exact h e hold
  · exact hmore e hnew

theorem LocatedList.head? {ns : List Node} (h : LocatedList document ns) :
    LocatedOption document ns.head? :=
  fun m hm => h m (List.mem_of_head? hm)

end

namespace Scope

/-- What stands behind a node of the document is a node of it, and itself if it is no reference. -/
structure Within (s : Scope) (document : Value) : Prop where
  follow : ∀ ⦃n m⦄, Located document n → s.follow n = .ok m → Located document m
  self : ∀ ⦃n⦄, n.ref? = none → s.follow n = .ok n

theorem within_ofLinked (d : Linked) (b : Bounds) : (ofLinked d b).Within d.document where
  follow _ _ hn h := Linked.located_followWithin hn (except_mapError_ok.mp h)
  self _ hn := except_mapError_ok.mpr (Linked.followWithin_of_none hn _)

variable {s : Scope} {document : Value} {n : Option Node}

theorem behind_some_ok {m : Node} {result : Option Node} (h : s.behind (some m) = .ok result) :
    ∃ target, s.follow m = .ok target ∧ result = some target := by
  obtain ⟨target, htarget, h⟩ := except_bind_ok.mp h
  cases h
  exact ⟨target, htarget, rfl⟩

theorem behind_ok {result : Option Node} (h : s.behind n = .ok result) :
    (n = none ∧ result = none)
      ∨ ∃ m target, n = some m ∧ s.follow m = .ok target ∧ result = some target := by
  cases n with
  | none =>
      cases h
      exact Or.inl ⟨rfl, rfl⟩
  | some m =>
      obtain ⟨target, htarget, hresult⟩ := behind_some_ok h
      exact Or.inr ⟨m, target, rfl, htarget, hresult⟩

/-- The fields that are seen are those of the node behind, if there is one. -/
theorem fieldsOf_ok {fields : Fields Node} (h : s.fieldsOf n = .ok fields) :
    fields = [] ∨ ∃ m target, n = some m ∧ s.follow m = .ok target ∧ fields = target.fields := by
  obtain ⟨result, hresult, h⟩ := except_bind_ok.mp h
  rcases behind_ok hresult with ⟨-, rfl⟩ | ⟨m, target, hn, htarget, rfl⟩
  · cases h
    exact Or.inl rfl
  · cases h
    exact Or.inr ⟨m, target, hn, htarget, rfl⟩

/-- The fields of a node that is there are those of the node behind it. -/
theorem fieldsOf_some_ok {m : Node} {fields : Fields Node} (h : s.fieldsOf (some m) = .ok fields) :
    ∃ target, s.follow m = .ok target ∧ fields = target.fields := by
  obtain ⟨result, hresult, h⟩ := except_bind_ok.mp h
  obtain ⟨target, htarget, rfl⟩ := behind_some_ok hresult
  cases h
  exact ⟨target, htarget, rfl⟩

theorem isMapping_some_ok {m : Node} {isMapping : Bool} (h : s.isMapping (some m) = .ok isMapping) :
    ∃ target, s.follow m = .ok target ∧ isMapping = target.value.isMapping := by
  obtain ⟨result, hresult, h⟩ := except_bind_ok.mp h
  obtain ⟨target, htarget, rfl⟩ := behind_some_ok hresult
  cases h
  exact ⟨target, htarget, rfl⟩

theorem itemsOf_ok {items : List Node} (h : s.itemsOf n = .ok items) :
    items = [] ∨ ∃ m target, n = some m ∧ s.follow m = .ok target ∧ items = target.items := by
  obtain ⟨result, hresult, h⟩ := except_bind_ok.mp h
  rcases behind_ok hresult with ⟨-, rfl⟩ | ⟨m, target, hn, htarget, rfl⟩
  · cases h
    exact Or.inl rfl
  · cases h
    exact Or.inr ⟨m, target, hn, htarget, rfl⟩

section

variable (hs : s.Within document)

include hs

theorem Within.fieldsOf (hn : LocatedOption document n) {fields : Fields Node}
    (h : s.fieldsOf n = .ok fields) : LocatedFields document fields := by
  rcases fieldsOf_ok h with rfl | ⟨m, target, hm, htarget, rfl⟩
  · exact fun e he => nomatch he
  · exact fun e he => (hs.follow (hn m hm) htarget).field he

theorem Within.itemsOf (hn : LocatedOption document n) {items : List Node}
    (h : s.itemsOf n = .ok items) : LocatedList document items := by
  rcases itemsOf_ok h with rfl | ⟨m, target, hm, htarget, rfl⟩
  · exact fun m hm => nomatch hm
  · exact fun item hitem => (hs.follow (hn m hm) htarget).item hitem

/-- The fields that are seen have distinct keys. -/
theorem Within.nodup_keys_fieldsOf (hkeys : KeysDistinct (nodes document))
    (hn : LocatedOption document n) {fields : Fields Node} (h : s.fieldsOf n = .ok fields) :
    (Fields.keys fields).Nodup := by
  rcases fieldsOf_ok h with rfl | ⟨m, target, hm, htarget, rfl⟩
  · exact List.nodup_nil
  · have hfields : Fields.keys target.fields = Fields.keys target.value.asFields := by
      simp [Fields.keys, Node.fields, Function.comp_def]
    rw [hfields]
    rcases hs.follow (hn m hm) htarget with hmem | ⟨v, hv⟩
    · exact hkeys target hmem
    · rw [hv]
      exact List.nodup_nil

/-- Only mappings have mappings behind them. -/
theorem Within.isMapping_of_follow {m target : Node} (h : s.follow m = .ok target)
    (hmapping : target.value.isMapping = true) : m.value.isMapping = true := by
  cases href : m.ref? with
  | none =>
      rw [hs.self href] at h
      cases h
      exact hmapping
  | some ref =>
      unfold Node.ref? refText? at href
      split at href
      · rename_i hvalue
        rw [hvalue]
        rfl
      · cases href

theorem Within.contentSchema {content : Option Node} (hcontent : LocatedOption document content)
    {schema : Option Node} (h : s.contentSchema content = .ok schema) :
    LocatedOption document schema := by
  obtain ⟨media, hmedia, h⟩ := except_bind_ok.mp h
  split at h
  · cases h
    exact fun m hm => nomatch hm
  · rename_i mediaType _
    split at h
    · cases h
      exact fun m hm => nomatch hm
    · obtain ⟨fields, hfields, h⟩ := except_bind_ok.mp h
      cases h
      exact (hs.fieldsOf ((hs.fieldsOf hcontent hmedia).get? mediaType) hfields).get? "schema"

theorem Within.parameterSchema {fields : Fields Node} (hfields : LocatedFields document fields)
    {schema : Option Node} (h : s.parameterSchema fields = .ok schema) :
    LocatedOption document schema := by
  unfold Scope.parameterSchema at h
  dsimp only at h
  split at h
  · exact hs.contentSchema (hfields.get? "content") h
  · cases h
    exact hfields.get? "schema"

theorem Within.responseSchema? {responses : Fields Node}
    (hresponses : LocatedFields document responses) {code : String} {schema : Option Node}
    (h : s.responseSchema? responses code = .ok schema) :
    LocatedOption document schema := by
  obtain ⟨response, hresponse, h⟩ := except_bind_ok.mp h
  obtain ⟨media, hmedia, h⟩ := except_bind_ok.mp h
  have hcontent := (hs.fieldsOf (hresponses.get? code) hresponse).get? "content"
  have hlocated := hs.fieldsOf hcontent hmedia
  split at h
  · cases h
    exact fun m hm => nomatch hm
  · rename_i mediaType _
    obtain ⟨fields, hfields, h⟩ := except_bind_ok.mp h
    have hschema := (hs.fieldsOf (hlocated.get? mediaType) hfields).get? "schema"
    dsimp only at h
    split at h
    · cases h
      exact fun m hm => nomatch hm
    · cases h
      exact hschema

end

/-! ### Values as a whole -/

/-- A value that is found is found at every greater number of levels. -/
theorem wholeWithin_mono (levels : Nat) (n : Node)
    (h : s.wholeWithin levels n ≠ .error (.reference .endless)) :
    s.wholeWithin (levels + 1) n = s.wholeWithin levels n := by
  induction levels generalizing n with
  | zero => exact absurd rfl h
  | succ levels ih =>
      unfold wholeWithin at h ⊢
      refine except_bind_mono (fun _ => rfl) (fun target hne => ?_) h
      cases hvalue : target.value with
      | scalar v => rfl
      | list vs =>
          rw [hvalue] at hne
          exact except_bind_mono (except_mapM_mono ih) (fun _ _ => rfl) hne
      | mapping fields =>
          rw [hvalue] at hne
          refine except_bind_mono (except_mapM_mono fun e hne => ?_) (fun _ _ => rfl) hne
          exact except_bind_mono (ih e.2) (fun _ _ => rfl) hne

/-- A value as a whole depends on the values of the document one level below. -/
theorem wholeWithin_step (hs : s.Within document) (levels : Nat)
    (h : ∀ n ∈ nodes document, s.wholeWithin (levels + 1) n = s.wholeWithin levels n) (n : Node)
    (hn : Located document n) : s.wholeWithin (levels + 2) n = s.wholeWithin (levels + 1) n := by
  unfold wholeWithin
  refine except_bind_congr fun target htarget => ?_
  have hlocated := hs.follow hn htarget
  cases hvalue : target.value with
  | scalar v => rfl
  | list vs =>
      have hmem := hlocated.mem_of_ne_scalar (by simp [hvalue])
      have hitems : target.items.mapM (s.wholeWithin (levels + 1))
          = target.items.mapM (s.wholeWithin levels) :=
        mapM_congr fun item hitem => h item (mem_nodes hmem (mem_nodesOf_of_mem_items hitem))
      dsimp only
      rw [hitems]
  | mapping fields =>
      have hmem := hlocated.mem_of_ne_scalar (by simp [hvalue])
      have hfields : (target.fields.mapM fun e => do
            return (e.1, ← s.wholeWithin (levels + 1) e.2))
          = target.fields.mapM fun e => do return (e.1, ← s.wholeWithin levels e.2) :=
        mapM_congr fun e he => by rw [h e.2 (mem_nodes hmem (mem_nodesOf_of_mem_fields he))]
      dsimp only
      rw [hfields]

/-- **More levels than there are values in the document find the same value.** -/
theorem wholeWithin_enough (hs : s.Within document) {levels : Nat}
    (h : valueCount document < levels) (more : Nat) {n : Node} (hn : Located document n) :
    s.wholeWithin (levels + more) n = s.wholeWithin levels n := by
  refine levels_enough (L := nodes document) wholeWithin_mono (fun n hn => Or.inl hn)
    (wholeWithin_step hs) ?_ more hn
  have hcount := length_nodesOfKind (fun _ => true) document
  simp only [nodesOfKind, List.filter_true] at hcount
  rw [hcount]
  exact h

end Scope

end ApiClientGen.Extraction
