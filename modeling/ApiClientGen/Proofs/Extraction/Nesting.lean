/-
Extraction ends.

References may lead back into the schema that they stand in, so that the types of schemas are
found inside of each other without an end in the document.  What ends the search is that a
call for a type keeps the places of the mappings that are open around it, and leaves a mapping
alone whose place is among them: along a chain of calls the places are all different, and
there are no more of them than mappings in the document.  The walk through combined schemas
ends for the same reason.  So the bounds of a scope are never reached, except by chains of
references that lead nowhere, and wider ones change nothing.
-/
import ApiClientGen.Proofs.Extraction.Interfaces
import ApiClientGen.Proofs.Extraction.Widening

namespace ApiClientGen.Extraction

open ApiClientGen.Canonical ApiClientGen.Document ApiClientGen.Reference ApiClientGen.Spec

namespace Scope

/--
A call asks another one if what it comes to depends on how that one is answered.  Whatever call
is made is asked, since an answer may be a failure, and a failure of an answer is one of the call.
-/
def Asks (s : Scope) (c inner : Call) : Prop :=
  ∃ f g : Call → Extract TypeRef,
    (∀ other, other ≠ inner → f other = g other) ∧ s.typeStep f c ≠ s.typeStep g c

variable {s : Scope} {document : Value} {c inner : Call} {t u : Node}

/-! ### Chains of calls -/

theorem Computes.unique (ht : s.Computes c t) (hu : s.Computes c u) : t = u := by
  obtain ⟨schema, hschema, -, ht, -⟩ := ht
  obtain ⟨other, hother, -, hu, -⟩ := hu
  rw [hschema] at hother
  cases hother
  rw [ht] at hu
  cases hu
  rfl

theorem Computes.located (hs : s.Within document) (hc : LocatedOption document c.schema)
    (h : s.Computes c t) : t ∈ nodes document ∧ t.value.isMapping = true := by
  obtain ⟨schema, hschema, -, ht, hmapping, -⟩ := h
  exact ⟨(hs.follow (hc schema hschema) ht).mem_of_isMapping hmapping, hmapping⟩

/-- A call that asks another one computes the type of a mapping, which is open for the other. -/
theorem Asks.computes (hs : s.Wide document) (hc : LocatedOption document c.schema)
    (h : s.Asks c inner) :
    ∃ target, s.Computes c target ∧ inner.opened = target.place :: c.opened
      ∧ LocatedOption document inner.schema := by
  obtain ⟨f, g, hfg, hne⟩ := h
  by_contra hnone
  refine hne (typeStep_widened hs {} hc fun target hcomputes part hint hpart => hfg _ ?_)
  rintro rfl
  exact hnone ⟨target, hcomputes, rfl, hpart⟩

/-- Along a chain of calls no mapping is opened that is open already. -/
theorem nodup_of_chain (hs : s.Wide document) {cs : List Call} {ts : List Node}
    (hc : LocatedOption document c.schema) (hchain : (c :: cs).IsChain s.Asks)
    (hts : List.Forall₂ s.Computes (c :: cs) ts) :
    (ts.map Node.place).Nodup
      ∧ ∀ t ∈ ts, t.place ∉ c.opened ∧ t ∈ nodes document ∧ t.value.isMapping = true := by
  induction cs generalizing c ts with
  | nil =>
      cases hts with
      | cons ht hnil =>
          cases hnil
          refine ⟨List.nodup_singleton _, fun u hu => ?_⟩
          rw [List.mem_singleton.mp hu]
          obtain ⟨-, -, -, -, -, hopen⟩ := id ht
          exact ⟨hopen, ht.located hs.toWithin hc⟩
  | cons inner cs ih =>
      obtain ⟨hasks, hrest⟩ := List.isChain_cons_cons.mp hchain
      cases hts with
      | @cons _ t _ ts ht hts =>
          obtain ⟨target, htarget, hopened, hinner⟩ := hasks.computes hs hc
          obtain rfl := ht.unique htarget
          obtain ⟨hnodup, hall⟩ := ih hinner hrest hts
          -- The mapping of this call is open for all the others, so that none of them opens it.
          rw [hopened] at hall
          obtain ⟨-, -, -, -, -, hopen⟩ := id ht
          refine ⟨List.nodup_cons.mpr ⟨fun hmem => ?_, hnodup⟩, fun u hu => ?_⟩
          · obtain ⟨u, hu, heq⟩ := List.mem_map.mp hmem
            exact (hall u hu).1 (heq ▸ List.mem_cons_self)
          · rcases List.mem_cons.mp hu with rfl | hu
            · exact ⟨hopen, ht.located hs.toWithin hc⟩
            · obtain ⟨hnew, hlocated⟩ := hall u hu
              exact ⟨fun hmem => hnew (List.mem_cons_of_mem _ hmem), hlocated⟩

/-- Different places of mappings are no more than there are mappings. -/
theorem length_le_mappingCount {places : List Place} (hnodup : places.Nodup)
    (hsub : places ⊆ mappingPlaces document) : places.length ≤ mappingCount document := by
  rw [← length_mappingPlaces]
  exact hnodup.length_le_of_subset hsub

/-! ### Nothing is looked at twice -/

/-- What bounds the search for types and the walk through combined schemas. -/
structure NothingTwice (s : Scope) (document : Value) : Prop where
  /-- Only a call that computes the type of a mapping asks another one. -/
  asks : ∀ c inner, LocatedOption document c.schema → s.Asks c inner → ∃ t, s.Computes c t
  /-- Calls inside of each other compute types of different mappings of the document. -/
  nested : ∀ cs ts, (∀ c ∈ cs.head?, LocatedOption document c.schema) → cs.IsChain s.Asks →
    List.Forall₂ s.Computes cs ts →
      (ts.map Node.place).Nodup ∧ (∀ t ∈ ts, t ∈ nodes document ∧ t.value.isMapping = true)
        ∧ cs.length ≤ mappingCount document
  /-- A walk through combined schemas keeps different places of mappings of the document. -/
  walked : ∀ n, Located document n → ∀ found seen,
    (s.propertiesWithin s.levels n).run.run [] = (found, seen) →
      seen.Nodup
        ∧ (∀ place ∈ seen, ∃ m ∈ nodes document, m.value.isMapping = true ∧ m.place = place)
        ∧ seen.length ≤ mappingCount document

theorem Wide.nothingTwice (hs : s.Wide document) : s.NothingTwice document where
  asks c inner hc h := by
    obtain ⟨target, htarget, -, -⟩ := h.computes hs hc
    exact ⟨target, htarget⟩
  nested cs ts hhead hchain hts := by
    cases cs with
    | nil =>
        cases hts
        exact ⟨List.nodup_nil, by simp, Nat.zero_le _⟩
    | cons c cs =>
        obtain ⟨hnodup, hall⟩ := nodup_of_chain hs (hhead c rfl) hchain hts
        refine ⟨hnodup, fun t ht => (hall t ht).2, ?_⟩
        have hsub : ts.map Node.place ⊆ mappingPlaces document := by
          intro place hplace
          obtain ⟨t, ht, rfl⟩ := List.mem_map.mp hplace
          exact mem_mappingPlaces.mpr ⟨t, (hall t ht).2.1, (hall t ht).2.2, rfl⟩
        have hle := length_le_mappingCount hnodup hsub
        rwa [List.length_map, ← hts.length_eq] at hle
  walked n hn found seen hrun := by
    obtain ⟨⟨added, hseen, hnodup, -, hsub⟩, -⟩ :=
      propertiesWithin_proper hs.toWithin s.levels hn []
    rw [hrun, List.append_nil] at hseen
    obtain rfl := hseen
    exact ⟨hnodup, fun place hplace => mem_mappingPlaces.mp (hsub hplace),
      length_le_mappingCount hnodup hsub⟩

end Scope

/--
**Extraction ends**, with an interface or a failure: wider bounds lead to the same outcome,
since no mapping is opened twice inside of itself and no schema is combined twice.
-/
theorem extraction_ends (d : CanonicalDocument) :
    (∀ more, run more d = run {} d)
      ∧ ∀ linked s parts, Linked.ofFields d.fields = .ok linked → prepare {} d = .ok (s, parts) →
          s.NothingTwice linked.document := by
  refine ⟨fun more => run_widened more d, fun linked s parts hlinked hprepare => ?_⟩
  exact (prepare_wide hlinked hprepare).1.nothingTwice

theorem extraction_ends_nodeDocument :
    ∃ linked s parts, Linked.ofFields nodeDocument.fields = .ok linked
      ∧ prepare {} nodeDocument = .ok (s, parts) ∧ mappingCount linked.document = 20
      ∧ run ⟨2, 3, 5⟩ nodeDocument = run {} nodeDocument ∧ s.NothingTwice linked.document := by
  obtain ⟨linked, hlinked⟩ := except_exists_ok (x := Linked.ofFields nodeDocument.fields)
    (by decide +kernel)
  obtain ⟨⟨s, parts⟩, hprepare⟩ := except_exists_ok (x := prepare {} nodeDocument)
    (by decide +kernel)
  obtain ⟨hwider, hnothing⟩ := extraction_ends nodeDocument
  have hcount : (Linked.ofFields nodeDocument.fields).toOption.map (fun linked =>
      mappingCount linked.document) = some 20 := by decide +kernel
  rw [hlinked] at hcount
  exact ⟨linked, s, parts, hlinked, hprepare, by simpa [Except.toOption] using hcount,
    hwider _, hnothing linked s parts hlinked hprepare⟩

end ApiClientGen.Extraction
