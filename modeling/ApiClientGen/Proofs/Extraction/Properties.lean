/-
The walk through combined schemas.

The walk keeps the places of the schemas it has looked at.  It looks at a schema only if its
place is not among them, and adds it before it goes into the parts.  So the places added are
all different, also when the walk fails in the middle of it, and there are no more of them
than mappings in the document; more levels than that are not used by any part.
-/
import ApiClientGen.Proofs.Extraction.Sight

namespace ApiClientGen.Extraction

open ApiClientGen.Document ApiClientGen.Reference

namespace Scope

/-! ### Runs of walks -/

namespace Walk

variable {α β : Type} {seen : List Place}

theorem run_bind (w : Walk α) (f : α → Walk β) :
    (w >>= f).run.run seen
      = match w.run.run seen with
        | (.ok a, seen') => (f a).run.run seen'
        | (.error e, seen') => (.error e, seen') := by
  show (ExceptT.bindCont (fun a => f a) (w.run.run seen).1).run (w.run.run seen).2 = _
  rcases w.run.run seen with ⟨_ | a, seen'⟩
  · rfl
  · rfl

theorem run_lift_bind (e : Except Failure α) (f : α → Walk β) :
    (liftM e >>= f : Walk β).run.run seen
      = match e with
        | .ok a => (f a).run.run seen
        | .error failure => (.error failure, seen) := by
  rw [run_bind]
  cases e <;> rfl

theorem run_get_bind (f : List Place → Walk β) :
    ((get : Walk (List Place)) >>= f).run.run seen = (f seen).run.run seen := rfl

/-- What a walk adds to the places looked at, if it only adds places from a list. -/
def Added (L seen seen' : List Place) : Prop :=
  ∃ added, seen' = added ++ seen ∧ added.Nodup ∧ (∀ place ∈ added, place ∉ seen) ∧ added ⊆ L

namespace Added

variable {L seen₁ seen' : List Place}

theorem refl (L seen : List Place) : Added L seen seen :=
  ⟨[], rfl, List.nodup_nil, by simp, List.nil_subset _⟩

theorem trans (h : Added L seen seen₁) (h' : Added L seen₁ seen') : Added L seen seen' := by
  obtain ⟨added, rfl, hnodup, hnew, hsub⟩ := h
  obtain ⟨added', rfl, hnodup', hnew', hsub'⟩ := h'
  refine ⟨added' ++ added, by simp, List.nodup_append.mpr ⟨hnodup', hnodup, ?_⟩, ?_,
    List.append_subset.mpr ⟨hsub', hsub⟩⟩
  · rintro place hplace _ hold rfl
    exact hnew' place hplace (List.mem_append_left _ hold)
  · intro place hplace hseen
    rcases List.mem_append.mp hplace with hplace | hplace
    · exact hnew' place hplace (List.mem_append_right _ hseen)
    · exact hnew place hplace hseen

theorem cons {place : Place} (hplace : place ∈ L) (hnew : place ∉ seen) :
    Added L seen (place :: seen) :=
  ⟨[place], rfl, List.nodup_singleton _, fun p hp => by rwa [List.mem_singleton.mp hp],
    List.cons_subset.mpr ⟨hplace, List.nil_subset _⟩⟩

theorem subset (h : Added L seen seen') : seen ⊆ seen' := by
  obtain ⟨added, rfl, -⟩ := h
  exact List.subset_append_right _ _

end Added

/-- A walk looks at nothing twice, and what it finds is as expected. -/
def Proper (L : List Place) (P : α → Prop) (w : Walk α) : Prop :=
  ∀ seen, Added L seen (w.run.run seen).2 ∧ ∀ a, (w.run.run seen).1 = .ok a → P a

namespace Proper

variable {L : List Place} {P : α → Prop} {Q : β → Prop}

theorem pure {a : α} (h : P a) : Proper L P (pure a) := by
  intro seen
  refine ⟨.refl L seen, ?_⟩
  rintro _ ⟨⟩
  exact h

theorem lift {e : Except Failure α} (h : ∀ a, e = .ok a → P a) : Proper L P (liftM e) :=
  fun seen => ⟨.refl L seen, h⟩

theorem bind {w : Walk α} {f : α → Walk β} (hw : Proper L P w) (hf : ∀ a, P a → Proper L Q (f a)) :
    Proper L Q (w >>= f) := by
  intro seen
  obtain ⟨hadded, hP⟩ := hw seen
  rw [run_bind]
  rcases hrun : w.run.run seen with ⟨e | a, seen'⟩
  · rw [hrun] at hadded
    exact ⟨hadded, fun _ h => nomatch h⟩
  · rw [hrun] at hadded hP
    obtain ⟨hadded', hQ⟩ := hf a (hP a rfl) seen'
    exact ⟨hadded.trans hadded', hQ⟩

theorem foldlM {γ : Type} {f : α → γ → Walk α} {l : List γ} {a : α} (ha : P a)
    (hf : ∀ a, P a → ∀ c ∈ l, Proper L P (f a c)) : Proper L P (l.foldlM f a) := by
  induction l generalizing a with
  | nil => exact pure ha
  | cons c l ih =>
      rw [List.foldlM_cons]
      refine (hf a ha c (by simp)).bind fun b hb => ?_
      exact ih hb fun b hb d hd => hf b hb d (List.mem_cons_of_mem _ hd)

end Proper

end Walk

/-! ### Looking at a schema -/

variable {s : Scope} {document : Value} {f g : Node → Walk Properties} {n target : Node}

/-- The properties together with those of a part. -/
def joinPart (answer : Node → Walk Properties) (found : Properties) (part : Node) :
    Walk Properties := do
  return Properties.join found (← answer part)

/-- The properties of a schema that has not been looked at before. -/
def expansion (s : Scope) (answer : Node → Walk Properties) (target : Node) : Walk Properties := do
  let parts ← s.itemsOf (target.field? "allOf")
  let inherited ← parts.foldlM (joinPart answer) {}
  let own ← s.fieldsOf (target.field? "properties")
  let required ← s.textsOf (target.field? "required")
  return inherited.join { schemas := own, required }

/-- A schema is looked at if it is a mapping whose place has not been seen. -/
theorem run_propertiesStep (seen : List Place) :
    (s.propertiesStep f n).run.run seen
      = match s.follow n with
        | .error failure => (.error failure, seen)
        | .ok target =>
          if target.value.isMapping = true ∧ n.place ∉ seen then
            (s.expansion f target).run.run (n.place :: seen)
          else (.ok {}, seen) := by
  rw [propertiesStep, Walk.run_lift_bind]
  cases s.follow n with
  | error failure => rfl
  | ok target =>
      dsimp only
      rw [Walk.run_get_bind]
      by_cases hopen : target.value.isMapping = true ∧ n.place ∉ seen
      · have hcond : (!target.value.isMapping || seen.contains n.place) = false := by
          simpa using hopen
        simp only [hcond, if_pos hopen]
        rfl
      · have hcond : (!target.value.isMapping || seen.contains n.place) = true := by
          simpa [imp_iff_not_or] using hopen
        simp only [hcond, if_neg hopen]
        rfl

/-! ### Nothing is looked at twice -/

/-- A walk that looks at nothing twice and finds schemas of the document. -/
abbrev ProperIn (document : Value) (w : Walk Properties) : Prop :=
  Walk.Proper (mappingPlaces document) (fun found => LocatedFields document found.schemas) w

theorem expansion_proper (hs : s.Within document) (htarget : Located document target)
    (hf : ∀ part, Located document part → ProperIn document (f part)) :
    ProperIn document (s.expansion f target) := by
  unfold expansion
  refine Walk.Proper.bind (Walk.Proper.lift fun parts hparts =>
    hs.itemsOf (fun m hm => htarget.field? hm) hparts) fun parts hparts => ?_
  refine Walk.Proper.bind (P := fun found => LocatedFields document found.schemas)
    (Walk.Proper.foldlM (fun e he => nomatch he) fun found hfound part hpart => ?_)
    fun inherited hinherited => ?_
  · exact (hf part (hparts part hpart)).bind fun more hmore =>
      Walk.Proper.pure (hfound.update hmore)
  · refine Walk.Proper.bind (Walk.Proper.lift fun own hown =>
      hs.fieldsOf (fun m hm => htarget.field? hm) hown) fun own hown => ?_
    refine Walk.Proper.bind (P := fun _ => True) (Walk.Proper.lift fun _ _ => trivial)
      fun required _ => ?_
    exact Walk.Proper.pure (hinherited.update hown)

theorem propertiesStep_proper (hs : s.Within document) (hn : Located document n)
    (hf : ∀ part, Located document part → ProperIn document (f part)) :
    ProperIn document (s.propertiesStep f n) := by
  intro seen
  rw [run_propertiesStep]
  cases htarget : s.follow n with
  | error failure => exact ⟨.refl _ seen, fun _ h => nomatch h⟩
  | ok target =>
      dsimp only
      split
      · rename_i hopen
        obtain ⟨hadded, hfound⟩ :=
          expansion_proper hs (hs.follow hn htarget) hf (n.place :: seen)
        have hplace := hn.place_mem (hs.isMapping_of_follow htarget hopen.1)
        exact ⟨(Walk.Added.cons hplace hopen.2).trans hadded, hfound⟩
      · refine ⟨.refl _ seen, ?_⟩
        rintro _ ⟨⟩
        exact fun e he => nomatch he

/-- A walk through schemas of the document looks at none of them twice. -/
theorem propertiesWithin_proper (hs : s.Within document) (levels : Nat) (hn : Located document n) :
    ProperIn document (s.propertiesWithin levels n) := by
  induction levels generalizing n with
  | zero => exact Walk.Proper.pure fun e he => nomatch he
  | succ levels ih => exact propertiesStep_proper hs hn fun part hpart => ih hpart

theorem Within.properties (hs : s.Within document) (hn : Located document n) {found : Properties}
    (h : s.properties n = .ok found) : LocatedFields document found.schemas :=
  (propertiesWithin_proper hs s.levels hn []).2 found h

/-! ### More levels than there are mappings -/

/-- The properties of parts are joined in the same way by walks that agree from here on. -/
theorem run_foldlM_congr {parts : List Node} {base seen : List Place} {found : Properties}
    (hsub : base ⊆ seen) (hf : ∀ part ∈ parts, ProperIn document (f part))
    (hfg : ∀ part ∈ parts, ∀ seen, base ⊆ seen → (f part).run.run seen = (g part).run.run seen) :
    (parts.foldlM (joinPart f) found).run.run seen
      = (parts.foldlM (joinPart g) found).run.run seen := by
  induction parts generalizing seen found with
  | nil => rfl
  | cons part parts ih =>
      have hfirst : (joinPart f found part).run.run seen
          = (joinPart g found part).run.run seen := by
        unfold joinPart
        rw [Walk.run_bind, Walk.run_bind, hfg part (by simp) seen hsub]
      have hproper : Walk.Proper (mappingPlaces document) (fun _ => True) (joinPart f found part) :=
        (hf part (by simp)).bind fun _ _ => Walk.Proper.pure trivial
      -- Both go on from the same places, to which the first part can only have added.
      rw [List.foldlM_cons, List.foldlM_cons, Walk.run_bind, Walk.run_bind, ← hfirst]
      have hadded := (hproper seen).1
      rcases hrun : (joinPart f found part).run.run seen with ⟨_ | found', seen'⟩
      · rfl
      · rw [hrun] at hadded
        exact ih (List.Subset.trans hsub hadded.subset)
          (fun q hq => hf q (List.mem_cons_of_mem _ hq))
          fun q hq => hfg q (List.mem_cons_of_mem _ hq)

/-- What stands in a schema is found in the same way by walks that agree on its parts. -/
theorem propertiesStep_congr (hs : s.Within document) (hn : Located document n) {seen : List Place}
    (hf : ∀ part, Located document part → ProperIn document (f part))
    (hfg : n.place ∈ mappingPlaces document → n.place ∉ seen → ∀ part, Located document part →
      ∀ seen', n.place :: seen ⊆ seen' → (f part).run.run seen' = (g part).run.run seen') :
    (s.propertiesStep f n).run.run seen = (s.propertiesStep g n).run.run seen := by
  rw [run_propertiesStep, run_propertiesStep]
  cases htarget : s.follow n with
  | error failure => rfl
  | ok target =>
      dsimp only
      split
      · rename_i hopen
        have hplace := hn.place_mem (hs.isMapping_of_follow htarget hopen.1)
        have hfg := hfg hplace hopen.2
        have hlocated := hs.follow hn htarget
        unfold expansion
        rw [Walk.run_lift_bind, Walk.run_lift_bind]
        cases hparts : s.itemsOf (target.field? "allOf") with
        | error failure => rfl
        | ok parts =>
            have hmem := hs.itemsOf (fun m hm => hlocated.field? hm) hparts
            dsimp only
            rw [Walk.run_bind, Walk.run_bind, run_foldlM_congr (List.Subset.refl _)
              (fun part hpart => hf part (hmem part hpart))
              fun part hpart => hfg part (hmem part hpart)]
      · rfl

/-- **More levels than there are mappings in the document find the same properties.** -/
theorem propertiesWithin_enough (hs : s.Within document) {levels : Nat} (hn : Located document n)
    {seen : List Place} (h : remaining (mappingPlaces document) seen < levels) (more : Nat) :
    (s.propertiesWithin (levels + more) n).run.run seen
      = (s.propertiesWithin levels n).run.run seen := by
  induction levels generalizing n seen with
  | zero => exact absurd h (Nat.not_lt_zero _)
  | succ levels ih =>
      rw [Nat.succ_add]
      refine propertiesStep_congr hs hn (fun part hpart => propertiesWithin_proper hs _ hpart) ?_
      intro hplace hnew part hpart seen' hsub
      refine ih hpart ?_
      -- Whatever was seen by the time a part is reached, this schema is among it.
      have hfewer := remaining_cons_lt hplace hnew
      have hmono := remaining_mono (L := mappingPlaces document) hsub
      omega

end Scope

end ApiClientGen.Extraction
