/-
What an extraction adds to what it keeps in mind.

While types are found, names are taken and schemas are written, and nothing is taken back or
written twice.  A name is written after it is taken, but not at once: the schemas inside of a
model are written first.  So the names taken and the names written only agree where a part of
an extraction ends, and this is what is said of every part here: the names it has written are
those it has taken, together with those that were reserved for it beforehand.

A type found on the way may have the name of a schema of the whole document, which is known
from the start, or of one that is written by now.  It is closed over these names, and stays
so.
-/
import Mathlib.Data.List.Perm.Basic
import ApiClientGen.Proofs.Extraction.Runs
import ApiClientGen.Proofs.Spec.Closed

namespace ApiClientGen.Extraction

open ApiClientGen.Spec
open scoped List

/-- The names that a type may have: those known from the start, and those of schemas written. -/
def Progress.names (known : List String) (p : Progress) : List String :=
  known ++ Fields.keys p.schemas

/-- What a part of an extraction adds, when it writes the names reserved and those it takes. -/
structure Grows (known reserved : List String) (p p' : Progress) : Prop where
  history : ∃ taken written,
    p'.models = taken ++ p.models ∧ p'.schemas = p.schemas ++ written
      ∧ Fields.keys written ~ reserved ++ taken
      ∧ ∀ e ∈ written, e.2.name = e.1 ∧ ∀ t ∈ e.2.types, t.Closed (p'.names known)
  fresh : p.models.Nodup → p'.models.Nodup
  shape : (∀ m ∈ p.models, IsModelName m) → ∀ m ∈ p'.models, IsModelName m

namespace Grows

variable {known reserved more : List String} {p p₁ p' : Progress}

/-- A part that leaves names and schemas alone adds nothing. -/
theorem of_eq (hmodels : p'.models = p.models) (hschemas : p'.schemas = p.schemas) :
    Grows known [] p p' where
  history := ⟨[], [], by simp [hmodels], by simp [hschemas], by simp [Fields.keys], by simp⟩
  fresh h := hmodels ▸ h
  shape h := hmodels ▸ h

theorem refl (p : Progress) : Grows known [] p p := of_eq rfl rfl

/-- What has been written stays written. -/
theorem schemas_append (h : Grows known reserved p p') :
    ∃ written, p'.schemas = p.schemas ++ written := by
  obtain ⟨taken, written, -, hschemas, -, -⟩ := h.history
  exact ⟨written, hschemas⟩

theorem names_subset (h : Grows known reserved p p') : p.names known ⊆ p'.names known := by
  obtain ⟨written, hschemas⟩ := h.schemas_append
  intro name hname
  rcases List.mem_append.mp hname with hknown | hkey
  · exact List.mem_append_left _ hknown
  · refine List.mem_append_right _ ?_
    rw [hschemas, Fields.keys, List.map_append]
    exact List.mem_append_left _ hkey

theorem trans (h : Grows known reserved p p₁) (h' : Grows known more p₁ p') :
    Grows known (reserved ++ more) p p' where
  history := by
    obtain ⟨taken, written, hmodels, hschemas, hperm, hclosed⟩ := h.history
    obtain ⟨taken', written', hmodels', hschemas', hperm', hclosed'⟩ := h'.history
    refine ⟨taken' ++ taken, written ++ written', by simp [hmodels', hmodels],
      by simp [hschemas', hschemas], ?_, ?_⟩
    · calc Fields.keys (written ++ written')
          ~ Fields.keys written ++ Fields.keys written' := by simp [Fields.keys]
        _ ~ (reserved ++ taken) ++ (more ++ taken') := hperm.append hperm'
        _ ~ reserved ++ more ++ (taken' ++ taken) := by
            simp only [List.append_assoc, List.perm_append_left_iff]
            exact List.perm_append_comm.trans (by simp)
    · intro e he
      rcases List.mem_append.mp he with hold | hnew
      · exact ⟨(hclosed e hold).1, fun t ht => ((hclosed e hold).2 t ht).mono h'.names_subset⟩
      · exact hclosed' e hnew
  fresh hnodup := h'.fresh (h.fresh hnodup)
  shape hnames := h'.shape (h.shape hnames)

theorem seq (h : Grows known [] p p₁) (h' : Grows known [] p₁ p') : Grows known [] p p' :=
  h.trans h'

/-- A schema is written under a name that was reserved for it. -/
theorem keep {name : String} {schema : Schema} (h : Grows known [] p p')
    (hname : schema.name = name) (hclosed : ∀ t ∈ schema.types, t.Closed (p'.names known)) :
    Grows known [name] p { p' with schemas := p'.schemas ++ [(name, schema)] } where
  history := by
    obtain ⟨taken, written, hmodels, hschemas, hperm, hwritten⟩ := h.history
    have hsub : p'.names known ⊆
        Progress.names known { p' with schemas := p'.schemas ++ [(name, schema)] } := by
      intro n hn
      rcases List.mem_append.mp hn with hknown | hkey
      · exact List.mem_append_left _ hknown
      · refine List.mem_append_right _ ?_
        rw [Fields.keys, List.map_append]
        exact List.mem_append_left _ hkey
    refine ⟨taken, written ++ [(name, schema)], hmodels, by simp [hschemas], ?_, ?_⟩
    · have hkeys : Fields.keys (written ++ [(name, schema)]) = Fields.keys written ++ [name] := by
        simp [Fields.keys]
      rw [hkeys]
      exact List.perm_append_comm.trans (hperm.cons name)
    · intro e he
      rcases List.mem_append.mp he with hold | hnew
      · exact ⟨(hwritten e hold).1, fun t ht => ((hwritten e hold).2 t ht).mono hsub⟩
      · rw [List.mem_singleton.mp hnew]
        exact ⟨hname, fun t ht => (hclosed t ht).mono hsub⟩
  fresh := h.fresh
  shape := h.shape

/-- What is written under a name that is taken first has that name for itself. -/
theorem take {hint : String}
    (h : Grows known [freeModelName p.models hint]
      { p with models := freeModelName p.models hint :: p.models } p') :
    Grows known [] p p' where
  history := by
    obtain ⟨taken, written, hmodels, hschemas, hperm, hwritten⟩ := h.history
    refine ⟨taken ++ [freeModelName p.models hint], written, by simp [hmodels], hschemas, ?_,
      hwritten⟩
    exact hperm.trans List.perm_append_comm
  fresh hnodup := h.fresh (List.nodup_cons.mpr ⟨freeModelName_not_mem _ _, hnodup⟩)
  shape hnames := by
    refine h.shape fun m hm => ?_
    rcases List.mem_cons.mp hm with rfl | hm
    · exact isModelName_freeModelName _ _
    · exact hnames m hm

end Grows

/-! ### Parts that find types -/

/-- Every run of a part writes what it takes, and all types in its result are closed. -/
def Extract.Sound {α : Type} (known : List String) (types : α → List TypeRef) (m : Extract α) :
    Prop :=
  ∀ ⦃p a p'⦄, m.run p = .ok (a, p') →
    Grows known [] p p' ∧ ∀ t ∈ types a, t.Closed (p'.names known)

namespace Extract

variable {α β : Type} {known : List String}

/-- A part that finds one type. -/
abbrev SoundType (known : List String) (m : Extract TypeRef) : Prop := Sound known (fun t => [t]) m

theorem soundType_iff {m : Extract TypeRef} :
    SoundType known m
      ↔ ∀ ⦃p t p'⦄, m.run p = .ok (t, p') → Grows known [] p p' ∧ t.Closed (p'.names known) := by
  simp only [Sound, List.mem_singleton, forall_eq]

/-- A part may be run on each of several things in a row. -/
theorem Sound.mapM {types : β → List TypeRef} {f : α → Extract β} {l : List α}
    (h : ∀ a ∈ l, Sound known types (f a)) :
    Sound known (fun bs => bs.flatMap types) (l.mapM f) := by
  induction l with
  | nil =>
      intro p bs p' hrun
      obtain ⟨rfl, rfl⟩ := mapM_nil_ok.mp hrun
      exact ⟨.refl p, by simp⟩
  | cons a l ih =>
      intro p bs p' hrun
      obtain ⟨b, rest, p₁, hb, hrest, rfl⟩ := mapM_cons_ok.mp hrun
      obtain ⟨hgrows, hclosed⟩ := h a (by simp) hb
      obtain ⟨hgrows', hclosed'⟩ := ih (fun x hx => h x (List.mem_cons_of_mem _ hx)) hrest
      refine ⟨hgrows.seq hgrows', fun t ht => ?_⟩
      simp only [List.flatMap_cons, List.mem_append] at ht
      rcases ht with hhere | hthere
      · exact (hclosed t hhere).mono hgrows'.names_subset
      · exact hclosed' t hthere

/-- A model of its own has a name that nothing else has. -/
theorem Sound.hoist {hint : String} {model : String → Extract Schema}
    (hmodel : ∀ name, Sound known Schema.types (model name))
    (hname : ∀ {name schema p p'}, (model name).run p = .ok (schema, p') → schema.name = name) :
    SoundType known (Scope.hoist hint model) := by
  refine soundType_iff.mpr fun p t p' hrun => ?_
  obtain ⟨schema, p₁, hschema, rfl, rfl⟩ := hoist_ok.mp hrun
  obtain ⟨hgrows, hclosed⟩ := hmodel _ hschema
  refine ⟨(hgrows.keep (hname hschema) hclosed).take, ?_⟩
  exact TypeRef.closed_reference (List.mem_append_right _ (by simp [Fields.keys]))

end Extract

end ApiClientGen.Extraction
