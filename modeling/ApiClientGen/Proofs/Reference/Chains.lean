/-
Chains of references.

Whatever stands behind a node of a document is a node of the document again.  A chain of
references that is followed to more references than the document has is followed to its end:
what a chain leads to at some length only depends on what the references of the document lead
to at the length before, and a length that adds nothing for them adds nothing for any node.
-/
import ApiClientGen.Proofs.Document.Answers
import ApiClientGen.Proofs.Reference.Levels
import ApiClientGen.Proofs.Reference.Nodes

namespace ApiClientGen.Reference

open ApiClientGen.Document

namespace Linked

variable {d : Linked} {document : Value} {f g : Node → Except Fault Node} {ref pointer : String}
  {self : Place} {length : Nat} {n m : Node}

/-! ### One step -/

/-- The node that a part of a pointer leads to. -/
def stepTo (ref pointer part : String) (here : Node) : Except Fault Node :=
  match here.part? part with
  | some next => .ok next
  | none => .error (.unresolvable ref pointer)

theorem walk_cons (part : String) (rest : List String) :
    walk f ref pointer self n (part :: rest)
      = (if n.place = self then .ok n else f n) >>= fun here =>
          stepTo ref pointer part here >>= fun next => walk f ref pointer self next rest := by
  have hstep : ∀ here, (match here.part? part with
        | some next => walk f ref pointer self next rest
        | none => throw (Fault.unresolvable ref pointer))
      = stepTo ref pointer part here >>= fun next => walk f ref pointer self next rest := by
    intro here
    unfold stepTo
    cases here.part? part <;> rfl
  rw [walk]
  by_cases hself : n.place = self
  · simp only [if_pos hself]
    exact hstep n
  · simp only [if_neg hself]
    exact except_bind_congr fun here _ => hstep here

theorem located_stepTo {part : String} (hn : Located document n)
    (h : stepTo ref pointer part n = .ok m) : Located document m := by
  unfold stepTo at h
  split at h
  · rename_i next hnext
    cases h
    exact hn.part? hnext
  · cases h

theorem followWithin_of_none (h : n.ref? = none) (length : Nat) :
    d.followWithin length n = .ok n := by
  cases length with
  | zero => simp [followWithin, h]
  | succ length => simp [followWithin, h]

theorem followWithin_of_some (h : n.ref? = some ref) (length : Nat) :
    d.followWithin (length + 1) n
      = target ref >>= fun t =>
          walk (d.followWithin length) ref t.fragment n.place (.root d.document)
              (pointerParts t.fragment) >>= fun reached =>
            if reached.place = n.place then .error (.itself ref)
            else d.followWithin length reached := by
  rw [followWithin, h]
  refine except_bind_congr fun t _ => except_bind_congr fun reached _ => ?_
  split <;> rfl

/-! ### Nodes that are reached -/

/-- A pointer leads to nodes of the document. -/
theorem located_walk {parts : List String}
    (hf : ∀ {n m}, Located document n → f n = .ok m → Located document m)
    (hn : Located document n) (h : walk f ref pointer self n parts = .ok m) :
    Located document m := by
  induction parts generalizing n with
  | nil =>
      cases h
      exact hn
  | cons part rest ih =>
      rw [walk_cons] at h
      obtain ⟨here, hhere, h⟩ := except_bind_ok.mp h
      obtain ⟨next, hnext, h⟩ := except_bind_ok.mp h
      have hlocated : Located document here := by
        split at hhere
        · cases hhere
          exact hn
        · exact hf hn hhere
      exact ih (located_stepTo hlocated hnext) h

/-- What stands behind a node of the document is a node of it. -/
theorem located_followWithin (hn : Located d.document n) (h : d.followWithin length n = .ok m) :
    Located d.document m := by
  induction length generalizing n m with
  | zero =>
      unfold followWithin at h
      split at h
      · cases h
      · cases h
        exact hn
  | succ length ih =>
      cases href : n.ref? with
      | none =>
          rw [followWithin_of_none href] at h
          cases h
          exact hn
      | some ref =>
          rw [followWithin_of_some href] at h
          obtain ⟨t, -, h⟩ := except_bind_ok.mp h
          obtain ⟨reached, hreached, h⟩ := except_bind_ok.mp h
          split at h
          · cases h
          · exact ih (located_walk ih (.root _) hreached) h

/-! ### More references than there are -/

/-- A pointer leads to the same node if what is behind the nodes of the document is the same. -/
theorem walk_congr {parts : List String}
    (hf : ∀ {n m}, Located document n → f n = .ok m → Located document m)
    (hfg : ∀ n, Located document n → f n = g n) (hn : Located document n) :
    walk f ref pointer self n parts = walk g ref pointer self n parts := by
  induction parts generalizing n with
  | nil => rfl
  | cons part rest ih =>
      rw [walk_cons, walk_cons, hfg n hn]
      refine except_bind_congr fun here hhere => except_bind_congr fun next hnext => ?_
      have hlocated : Located document here := by
        split at hhere
        · cases hhere
          exact hn
        · exact hf hn (hfg n hn ▸ hhere)
      exact ih (located_stepTo hlocated hnext)

theorem walk_mono {parts : List String} (hfg : ∀ n, f n ≠ .error .endless → g n = f n)
    (h : walk f ref pointer self n parts ≠ .error .endless) :
    walk g ref pointer self n parts = walk f ref pointer self n parts := by
  induction parts generalizing n with
  | nil => rfl
  | cons part rest ih =>
      rw [walk_cons] at h
      rw [walk_cons, walk_cons]
      refine except_bind_mono (fun hne => ?_) (fun here hne => ?_) h
      · split
        · rfl
        · rename_i hself
          rw [if_neg hself] at hne
          exact hfg n hne
      · exact except_bind_mono (fun _ => rfl) (fun next hne => ih hne) hne

/-- What a chain leads to is what it leads to at every greater length. -/
theorem followWithin_mono (length : Nat) (n : Node)
    (h : d.followWithin length n ≠ .error .endless) :
    d.followWithin (length + 1) n = d.followWithin length n := by
  induction length generalizing n with
  | zero =>
      cases href : n.ref? with
      | none => rw [followWithin_of_none href, followWithin_of_none href]
      | some ref => exact absurd (by simp [followWithin, href]) h
  | succ length ih =>
      cases href : n.ref? with
      | none => rw [followWithin_of_none href, followWithin_of_none href]
      | some ref =>
          rw [followWithin_of_some href] at h
          rw [followWithin_of_some href, followWithin_of_some href]
          refine except_bind_mono (fun _ => rfl) (fun t hne => ?_) h
          refine except_bind_mono (walk_mono ih) (fun reached hne => ?_) hne
          split
          · rfl
          · rename_i hother
            rw [if_neg hother] at hne
            exact ih reached hne

/-- The references of a document. -/
def references (document : Value) : List Node :=
  nodesOfKind (fun v => (refText? v).isSome) document

/-- What a chain leads to depends on what the references of the document lead to before. -/
theorem followWithin_step (length : Nat)
    (h : ∀ n ∈ references d.document, d.followWithin (length + 1) n = d.followWithin length n)
    (n : Node) : d.followWithin (length + 2) n = d.followWithin (length + 1) n := by
  -- Nodes that are no references lead to themselves at every length.
  have hlocated : ∀ n, Located d.document n →
      d.followWithin (length + 1) n = d.followWithin length n := by
    intro n hn
    cases href : n.ref? with
    | none => rw [followWithin_of_none href, followWithin_of_none href]
    | some ref =>
        rcases hn with hmem | ⟨v, hv⟩
        · refine h n (List.mem_filter.mpr ⟨hmem, ?_⟩)
          have hsome : refText? n.value = some ref := href
          simp [hsome]
        · rw [Node.ref?, hv] at href
          cases href
  cases href : n.ref? with
  | none => rw [followWithin_of_none href, followWithin_of_none href]
  | some ref =>
      rw [followWithin_of_some href, followWithin_of_some href]
      refine except_bind_congr fun t _ => ?_
      rw [walk_congr located_followWithin hlocated (.root _)]
      refine except_bind_congr fun reached hreached => ?_
      rw [hlocated reached (located_walk located_followWithin (.root _) hreached)]

/-- **Chains of more references than the document has lead nowhere else.** -/
theorem followWithin_enough (h : refCount d.document < length) (more : Nat) (n : Node) :
    d.followWithin (length + more) n = d.followWithin length n :=
  levels_enough (L := references d.document) (P := fun _ => True) followWithin_mono
    (fun _ _ => trivial) (fun length h n _ => followWithin_step length h n)
    (by rwa [references, length_nodesOfKind]) more trivial

end Linked

end ApiClientGen.Reference
