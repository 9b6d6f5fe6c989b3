/-
Twins in two documents.

Two documents may have the same value, each at a place of its own.  Its parts then stand at
places that correspond.  A reference in the value leads away from it, but if it leads into the
components, which both documents share, it leads to the same node in both.  So as long as no
reference leads anywhere else, twins have twins behind them, and scopes that look at the two
documents see alike there.
-/
import ApiClientGen.Proofs.Canonical.References
import ApiClientGen.Proofs.Extraction.Alike
import ApiClientGen.Proofs.Reference.Addresses

namespace ApiClientGen.Reference

open ApiClientGen.Canonical ApiClientGen.Document

/-! ### Parts of twins -/

/-- The parts of a node are those of its value, below its place. -/
theorem part?_eq_map (n : Node) (part : String) :
    n.part? part = ((Node.root n.value).part? part).map fun c => ⟨c.place ++ n.place, c.value⟩ := by
  obtain ⟨place, v⟩ := n
  cases v with
  | mapping fields =>
      show Option.map _ _ = Option.map _ (Option.map _ _)
      rw [Option.map_map]
      rfl
  | list vs => simp [Node.part?, Node.root, Option.map_bind]
  | scalar s =>
      cases s with
      | string text => simp [Node.part?, Node.root, Option.map_bind]
      | _ => rfl

/-- The references in a part of a value are references of the value. -/
theorem refs_part? {P : String → Prop} {v : Value} (h : Refs P v) {part : String} {c : Node}
    (hc : (Node.root v).part? part = some c) : Refs P c.value := by
  cases v with
  | mapping fields =>
      obtain ⟨w, hw, rfl⟩ := Option.map_eq_some_iff.mp hc
      exact (RefsIn.get? h hw).refs
  | list vs =>
      obtain ⟨i, -, hc⟩ := Option.bind_eq_some_iff.mp hc
      obtain ⟨w, hw, hc⟩ := Option.bind_eq_some_iff.mp hc
      cases hc
      exact refs_list.mp h w (List.mem_of_getElem? hw)
  | scalar s =>
      cases s with
      | string text =>
          obtain ⟨i, -, hc⟩ := Option.bind_eq_some_iff.mp hc
          obtain ⟨w, -, hc⟩ := Option.bind_eq_some_iff.mp hc
          cases hc
          exact fun ref hmem => nomatch hmem
      | _ => cases hc

/-- The text of a reference is one of those in its value. -/
theorem refs_ref? {P : String → Prop} {n : Node} (h : Refs P n.value) {ref : String}
    (href : n.ref? = some ref) : P ref := by
  obtain ⟨place, v⟩ := n
  cases v with
  | mapping fields =>
      obtain ⟨w, hw, htext⟩ := Option.bind_eq_some_iff.mp href
      cases w with
      | scalar s =>
          cases s with
          | string text =>
              cases htext
              exact RefsIn.get? h hw ref (by simp [refTextsAt, refKey])
          | _ => cases htext
      | list vs => cases htext
      | mapping fields => cases htext
  | list vs => cases href
  | scalar s => cases href

/-- Places that correspond, each to one other, and their parts with them. -/
structure Corresponding (ρ : Place → Place → Prop) : Prop where
  part : ∀ ⦃p p'⦄, ρ p p' → ∀ step, ρ (step :: p) (step :: p')
  unique : ∀ ⦃p p' q q'⦄, ρ p p' → ρ q q' → (p = q ↔ p' = q')

/--
**Twins**: nodes with the same value, whose references are all of a kind, at places that
correspond.
-/
structure Twins (P : String → Prop) (ρ : Place → Place → Prop) (n m : Node) : Prop where
  value : n.value = m.value
  refs : Refs P n.value
  place : ρ n.place m.place

namespace Twins

variable {P : String → Prop} {ρ : Place → Place → Prop} {n m : Node}

theorem append (hρ : Corresponding ρ) {p p' : Place} (h : ρ p p') (steps : Place) :
    ρ (steps ++ p) (steps ++ p') := by
  induction steps with
  | nil => exact h
  | cons step steps ih => exact hρ.part ih step

theorem part? (hρ : Corresponding ρ) (h : Twins P ρ n m) (part : String) :
    Option.Rel (Twins P ρ) (n.part? part) (m.part? part) := by
  rw [part?_eq_map n, part?_eq_map m, h.value]
  cases hc : (Node.root m.value).part? part with
  | none => exact .none
  | some c =>
      have hrefs : Refs P m.value := h.value ▸ h.refs
      have hpart : Refs P c.value := refs_part? hrefs hc
      exact .some ⟨rfl, hpart, append hρ h.place c.place⟩

theorem fields (hρ : Corresponding ρ) (h : Twins P ρ n m) :
    Fields.Related (fun _ => Twins P ρ) n.fields m.fields := by
  have hrefs : RefsIn P m.value.asFields := by
    rw [← h.value]
    cases hv : n.value with
    | mapping fields =>
        have hall := h.refs
        rw [hv] at hall
        exact hall
    | list vs => exact .nil
    | scalar s => exact .nil
  unfold Node.fields
  rw [h.value]
  refine List.forall₂_map_left_iff.mpr (List.forall₂_map_right_iff.mpr
    (List.forall₂_same.mpr fun e he => ⟨rfl, rfl, ?_, hρ.part h.place _⟩))
  exact (refsIn_iff.mp hrefs e he).refs

theorem items (hρ : Corresponding ρ) (h : Twins P ρ n m) :
    List.Forall₂ (Twins P ρ) n.items m.items := by
  have hrefs : ∀ v ∈ m.value.asItems, Refs P v := by
    rw [← h.value]
    cases hv : n.value with
    | list vs =>
        have hall := h.refs
        rw [hv] at hall
        exact refs_list.mp hall
    | mapping fields => exact fun v hmem => nomatch hmem
    | scalar s => exact fun v hmem => nomatch hmem
  unfold Node.items
  rw [h.value, List.forall₂_iff_get]
  refine ⟨by simp, fun i hi hi' => ?_⟩
  simp only [List.get_eq_getElem, List.getElem_mapIdx]
  exact ⟨rfl, hrefs _ (List.getElem_mem _), hρ.part h.place _⟩

theorem ref?_eq (h : Twins P ρ n m) : n.ref? = m.ref? := by rw [Node.ref?, h.value, Node.ref?]

end Twins

/-! ### Following references from twins -/

namespace Linked

variable {P : String → Prop} {ρ : Place → Place → Prop} {f g : Node → Except Fault Node}
  {ref pointer part : String} {rest parts : List String} {self self' : Place} {n m : Node}

/-- A node that is no reference is stepped from as it is. -/
theorem walk_cons_of_self (hf : f n = .ok n) :
    walk f ref pointer self n (part :: rest)
      = stepTo ref pointer part n >>= fun next => walk f ref pointer self next rest := by
  have hhere : (if n.place = self then Except.ok n else f n) = Except.ok n := by
    split
    · rfl
    · exact hf
  rw [walk_cons, hhere]
  rfl

theorem agree_stepTo {R : Node → Node → Prop} (h : Option.Rel R (n.part? part) (m.part? part)) :
    Agree R (stepTo ref pointer part n) (stepTo ref pointer part m) := by
  unfold stepTo
  generalize n.part? part = a at h
  generalize m.part? part = b at h
  cases h with
  | none => exact .error _
  | some h => exact .ok h

/-- **A pointer leads from twins to twins** if there are twins behind the twins on the way. -/
theorem walk_twins (hρ : Corresponding ρ)
    (hfg : ∀ a b, Twins P ρ a b → Agree (Twins P ρ) (f a) (g b)) (hself : ρ self self')
    (h : Twins P ρ n m) :
    Agree (Twins P ρ) (walk f ref pointer self n parts) (walk g ref pointer self' m parts) := by
  induction parts generalizing n m with
  | nil => exact .ok h
  | cons part rest ih =>
      have hhere : Agree (Twins P ρ) (if n.place = self then .ok n else f n)
          (if m.place = self' then .ok m else g m) := by
        simp only [hρ.unique h.place hself]
        split
        · exact .ok h
        · exact hfg n m h
      rw [walk_cons, walk_cons]
      exact hhere.bind fun _ _ hhere => (agree_stepTo (hhere.part? hρ part)).bind fun _ _ hnext =>
        ih hnext

/--
**Two documents in which references lead from twins to twins**: wherever such a reference is
followed from, both roots lead to twins along its pointer.
-/
structure Shared (d e : Linked) (P : String → Prop) (ρ : Place → Place → Prop) : Prop where
  corresponding : Corresponding ρ
  lead : ∀ ref, P ref → ∃ t, target ref = .ok t ∧ ∀ f g self self',
    (∀ n, n.ref? = none → f n = .ok n) → (∀ n, n.ref? = none → g n = .ok n) →
      (∀ a b, Twins P ρ a b → Agree (Twins P ρ) (f a) (g b)) → ρ self self' →
        Agree (Twins P ρ) (walk f ref t.fragment self (.root d.document) (pointerParts t.fragment))
          (walk g ref t.fragment self' (.root e.document) (pointerParts t.fragment))

/--
References with the same text at places that correspond have twins behind them, if the nodes that
they lead to have.
-/
theorem Shared.followWithin_succ {d e : Linked} (h : Shared d e P ρ) {length : Nat}
    (ih : ∀ n m, Twins P ρ n m → Agree (Twins P ρ) (d.followWithin length n) (e.followWithin length m))
    (hplace : ρ n.place m.place) (hn : n.ref? = some ref) (hm : m.ref? = some ref) (href : P ref) :
    Agree (Twins P ρ) (d.followWithin (length + 1) n) (e.followWithin (length + 1) m) := by
  obtain ⟨t, ht, hlead⟩ := h.lead ref href
  rw [followWithin_of_some hn, followWithin_of_some hm, ht]
  refine (hlead _ _ _ _ (fun _ h => followWithin_of_none h length)
    (fun _ h => followWithin_of_none h length) ih hplace).bind fun reached reached' hreached => ?_
  simp only [h.corresponding.unique hreached.place hplace]
  split
  · exact .error _
  · exact ih _ _ hreached

/-- **Twins have twins behind them**, along chains of every length. -/
theorem Shared.followWithin {d e : Linked} (h : Shared d e P ρ) (length : Nat)
    (hnm : Twins P ρ n m) :
    Agree (Twins P ρ) (d.followWithin length n) (e.followWithin length m) := by
  induction length generalizing n m with
  | zero =>
      unfold Linked.followWithin
      rw [hnm.ref?_eq]
      split
      · exact .error _
      · exact .ok hnm
  | succ length ih =>
      cases href : n.ref? with
      | none =>
          rw [followWithin_of_none href, followWithin_of_none (hnm.ref?_eq ▸ href)]
          exact .ok hnm
      | some ref =>
          exact h.followWithin_succ (fun _ _ hab => ih hab) hnm.place href (hnm.ref?_eq ▸ href)
            (refs_ref? hnm.refs href)

/-- **References with the same text lead to twins**, whatever else stands beside the text. -/
theorem Shared.followWithin_ref {d e : Linked} (h : Shared d e P ρ) (length : Nat)
    (hplace : ρ n.place m.place) (hn : n.ref? = some ref) (hm : m.ref? = some ref) (href : P ref) :
    Agree (Twins P ρ) (d.followWithin length n) (e.followWithin length m) := by
  cases length with
  | zero =>
      rw [Linked.followWithin, Linked.followWithin, hn, hm]
      exact .error _
  | succ length => exact h.followWithin_succ (fun _ _ => h.followWithin length) hplace hn hm href

/-! ### References into shared components -/

/-- A reference into its own document, whose pointer begins with some parts. -/
def LeadsAlong (parts : List String) (ref : String) : Prop :=
  ∃ pointer rest, ref = "#" ++ pointer ∧ IsWithout ['\t', '\r', '\n'] pointer
    ∧ pointerParts pointer = parts ++ rest

/-- **Two documents that share their components.** -/
structure ShareComponents (d e : Linked) : Prop where
  left : (Node.root d.document).ref? = none
  right : (Node.root e.document).ref? = none
  components : (Node.root d.document).part? "components" = (Node.root e.document).part? "components"
  refs : ∀ c, (Node.root d.document).part? "components" = some c →
    Refs (LeadsAlong ["components"]) c.value

/-- The same node of two documents. -/
abbrev SameTwins : Node → Node → Prop := Twins (LeadsAlong ["components"]) Eq

theorem corresponding_eq : Corresponding Eq where
  part := by
    rintro p _ rfl step
    rfl
  unique := by
    rintro p _ q _ rfl rfl
    exact Iff.rfl

/-- **References that lead into shared components first lead to the same nodes.** -/
theorem shared_of_components {d e : Linked} (hd : (Node.root d.document).ref? = none)
    (he : (Node.root e.document).ref? = none)
    (hcomponents : Option.Rel (Twins P Eq) ((Node.root d.document).part? "components")
      ((Node.root e.document).part? "components"))
    (hlead : ∀ ref, P ref → ∃ t rest, target ref = .ok t
      ∧ pointerParts t.fragment = "components" :: rest) : Shared d e P Eq where
  corresponding := corresponding_eq
  lead ref href := by
    obtain ⟨t, rest, ht, hparts⟩ := hlead ref href
    refine ⟨t, ht, fun f g self self' hf hg hfg hself => ?_⟩
    rw [hparts, walk_cons_of_self (hf _ hd), walk_cons_of_self (hg _ he)]
    exact (agree_stepTo hcomponents).bind fun _ _ hnext =>
      walk_twins corresponding_eq hfg hself hnext

/-- References into shared components lead to the same nodes. -/
theorem ShareComponents.shared {d e : Linked} (h : ShareComponents d e) :
    Shared d e (LeadsAlong ["components"]) Eq := by
  refine shared_of_components h.left h.right ?_ fun ref href => ?_
  · rw [← h.components]
    exact optionRel_self fun c hc => ⟨rfl, h.refs c hc, rfl⟩
  · obtain ⟨pointer, rest, rfl, hwithout, hparts⟩ := href
    exact ⟨_, rest, target_fragment hwithout, hparts⟩

/-- The node of the components. -/
def componentsNode (fields : Fields Value) : Node := ⟨[.field "components"], .mapping fields⟩

/-- The place of the schemas. -/
def schemasPlace : Place := [.field "schemas", .field "components"]

/--
The places in a copy correspond to those it was copied from, and the places of schemas to
themselves.
-/
def Copied (source copy : Place) (place place' : Place) : Prop :=
  (∃ steps, place = steps ++ source ∧ place' = steps ++ copy)
    ∨ (place = place' ∧ schemasPlace <:+ place)

/-- A place that has nothing to do with those of schemas. -/
def BesideSchemas (place : Place) : Prop := ∀ steps, ¬ schemasPlace <:+ steps ++ place

theorem corresponding_copied {source copy : Place} (hsource : BesideSchemas source)
    (hcopy : BesideSchemas copy) : Corresponding (Copied source copy) where
  part := by
    rintro p p' (⟨steps, rfl, rfl⟩ | ⟨rfl, hschemas⟩) step
    · exact Or.inl ⟨step :: steps, rfl, rfl⟩
    · exact Or.inr ⟨rfl, hschemas.trans (List.suffix_cons step p)⟩
  unique := by
    rintro p p' q q' (⟨steps, rfl, rfl⟩ | ⟨rfl, hp⟩) (⟨more, rfl, rfl⟩ | ⟨rfl, hq⟩)
    · rw [List.append_left_inj, List.append_left_inj]
    · exact ⟨fun heq => absurd (heq ▸ hq) (hsource steps), fun heq => absurd (heq ▸ hq) (hcopy steps)⟩
    · exact ⟨fun heq => absurd (heq ▸ hp) (hsource more), fun heq => absurd (heq ▸ hp) (hcopy more)⟩
    · exact Iff.rfl

/-- References from a copy to schemas lead to the schemas, as they do from what was copied. -/
theorem ShareComponents.shared_copied {d e : Linked} (h : ShareComponents d e)
    {fields : Fields Value}
    (hfields : (Node.root d.document).part? "components" = some (componentsNode fields))
    (href : (componentsNode fields).ref? = none)
    (hschemas : ∀ v, Fields.get? fields "schemas" = some v →
      Refs (LeadsAlong ["components", "schemas"]) v)
    {source copy : Place} (hsource : BesideSchemas source) (hcopy : BesideSchemas copy) :
    Shared d e (LeadsAlong ["components", "schemas"]) (Copied source copy) where
  corresponding := corresponding_copied hsource hcopy
  lead ref hlead := by
    obtain ⟨pointer, rest, rfl, hwithout, hparts⟩ := hlead
    refine ⟨_, target_fragment hwithout, fun f g self self' hf hg hfg hself => ?_⟩
    have hstep : ∀ {document : Value},
        (Node.root document).part? "components" = some (componentsNode fields) →
          stepTo ("#" ++ pointer) pointer "components" (Node.root document)
            = .ok (componentsNode fields) := by
      intro document hpart
      rw [stepTo, hpart]
    have hnext : Option.Rel (Twins (LeadsAlong ["components", "schemas"]) (Copied source copy))
        ((componentsNode fields).part? "schemas") ((componentsNode fields).part? "schemas") := by
      show Option.Rel _ ((Fields.get? fields "schemas").map _) ((Fields.get? fields "schemas").map _)
      cases hv : Fields.get? fields "schemas" with
      | none => exact .none
      | some v => exact .some ⟨rfl, hschemas v hv, Or.inr ⟨rfl, List.suffix_refl _⟩⟩
    rw [hparts, List.cons_append, walk_cons_of_self (hf _ h.left), walk_cons_of_self (hg _ h.right),
      hstep hfields, hstep (h.components ▸ hfields)]
    show Agree _ (walk _ _ _ _ (componentsNode fields) ("schemas" :: rest))
      (walk _ _ _ _ (componentsNode fields) ("schemas" :: rest))
    rw [walk_cons_of_self (hf _ href), walk_cons_of_self (hg _ href)]
    exact (agree_stepTo hnext).bind fun _ _ hnext =>
      walk_twins (corresponding_copied hsource hcopy) hfg hself hnext

end Linked

end ApiClientGen.Reference

namespace ApiClientGen.Extraction

open ApiClientGen.Reference

/-- **Scopes within the same bounds see alike at twins.** -/
theorem alike_ofLinked {d e : Linked} {P : String → Prop} {ρ : Place → Place → Prop}
    (h : Linked.Shared d e P ρ) (b : Bounds) (models : Fields String) :
    Scope.Alike { Scope.ofLinked d b with models } { Scope.ofLinked e b with models }
      fun _ => Twins P ρ :=
  .of_value (fun _ _ hnm => hnm.value) (fun _ _ hnm => hnm.items h.corresponding)
    (fun _ _ hnm => (h.followWithin b.chain hnm).mapError Failure.reference) rfl rfl rfl
    (fun _ _ _ _ hnm hnm' => h.corresponding.unique hnm.place hnm'.place)
    (fun _ _ hnm => hnm.fields h.corresponding)

end ApiClientGen.Extraction
