/-
No schema is lost.

All names for models are given through one list of names taken.  The names for the schemas of
the whole document come first, and whatever else becomes a model gets a name that is not in
the list yet.  So no two models have the same name; and since the names written are the names
taken, once each, every write goes to a new key and nothing is written over.
-/
import ApiClientGen.Proofs.Extraction.Interfaces
import ApiClientGen.Proofs.Extraction.Sight

namespace ApiClientGen.Extraction

open ApiClientGen.Canonical ApiClientGen.Document ApiClientGen.Reference ApiClientGen.Spec
open scoped List

/-! ### Names for the schemas of the whole document -/

/-- What holds of no names, and stays true when a free one is added, holds of all names. -/
theorem modelNames_induction {P : Fields String → Prop} (hnil : P [])
    (hstep : ∀ named name, P named →
      P (named ++ [(name, freeModelName (named.map Prod.snd) name)])) (schemas : List String) :
    P (modelNames schemas) := by
  have hfold : ∀ named, P named → P (schemas.foldl (fun named name =>
      named ++ [(name, freeModelName (named.map Prod.snd) name)]) named) := by
    induction schemas with
    | nil => exact fun named h => h
    | cons name schemas ih => exact fun named h => ih _ (hstep named name h)
  exact hfold [] hnil

theorem nodup_modelNames (schemas : List String) : ((modelNames schemas).map Prod.snd).Nodup := by
  refine modelNames_induction (P := fun named => (named.map Prod.snd).Nodup) List.nodup_nil ?_
    schemas
  intro named name hnodup
  rw [List.map_append, List.map_singleton]
  refine List.nodup_append.mpr ⟨hnodup, List.nodup_singleton _, ?_⟩
  intro taken htaken fresh hfresh heq
  rw [List.mem_singleton.mp hfresh] at heq
  exact freeModelName_not_mem _ name (heq ▸ htaken)

theorem isModelName_modelNames (schemas : List String) :
    ∀ m ∈ (modelNames schemas).map Prod.snd, IsModelName m := by
  refine modelNames_induction (P := fun named => ∀ m ∈ named.map Prod.snd, IsModelName m)
    (fun m hm => nomatch hm) ?_ schemas
  intro named name hnamed m hm
  rw [List.map_append, List.map_singleton] at hm
  rcases List.mem_append.mp hm with hold | hnew
  · exact hnamed m hold
  · rw [List.mem_singleton.mp hnew]
    exact isModelName_freeModelName _ name

/-- Different schemas have different models. -/
theorem modelNames_injective {schemas : List String} {a b model : String}
    (ha : Fields.get? (modelNames schemas) a = some model)
    (hb : Fields.get? (modelNames schemas) b = some model) : a = b := by
  have heq := List.inj_on_of_nodup_map (nodup_modelNames schemas) (Fields.mem_of_get? ha)
    (Fields.mem_of_get? hb) rfl
  exact congrArg Prod.fst heq

/-! ### Schemas of the whole document -/

namespace Scope

variable {s : Scope} {p p' : Progress}

/-- What is made of a schema of the whole document is written under the name of its model. -/
theorem components_written {u : Unit} {schemas : Fields Node} {e : String × Node} {name : String}
    (h : (s.components schemas).run p = .ok (u, p')) (he : e ∈ schemas)
    (hname : Fields.get? s.models e.1 = some name) :
    ∃ schema q q', (s.component name e.2).run q = .ok (schema, q')
      ∧ (name, schema) ∈ p'.schemas := by
  induction schemas generalizing p with
  | nil => cases he
  | cons f schemas ih =>
      rcases components_cons_ok h with ⟨hnone, hrest⟩ | ⟨other, schema, p₁, hother, hschema, hrest⟩
      · rcases List.mem_cons.mp he with rfl | he
        · rw [hname] at hnone
          cases hnone
        · exact ih hrest he
      · rcases List.mem_cons.mp he with rfl | he
        · rw [hname] at hother
          cases hother
          have hmodels : ∀ key model, Fields.get? s.models key = some model →
              model ∈ s.models.map Prod.snd :=
            fun key model hget => List.mem_map_of_mem (Fields.mem_of_get? hget)
          obtain ⟨written, hwritten⟩ := (components_grows hmodels hrest).schemas_append
          refine ⟨schema, p, p₁, hschema, ?_⟩
          rw [hwritten]
          simp
        · exact ih hrest he

/-- With one model for each schema, the names reserved are those of the models. -/
theorem reserved_eq {schemas : Fields Node}
    (hmodels : s.models = modelNames (Fields.keys schemas)) (hnodup : (Fields.keys schemas).Nodup) :
    s.reserved schemas = s.models.map Prod.snd := by
  have hkeys : Fields.keys s.models = Fields.keys schemas := by rw [hmodels, keys_modelNames]
  calc s.reserved schemas = (Fields.keys schemas).filterMap (Fields.get? s.models) := by
          rw [reserved, Fields.keys, List.filterMap_map]
          rfl
    _ = (Fields.keys s.models).filterMap (Fields.get? s.models) := by rw [hkeys]
    _ = s.models.map Prod.snd := Fields.filterMap_get?_keys (hkeys ▸ hnodup)

end Scope

/-- The schemas of the whole document have distinct names. -/
theorem nodup_keys_schemas {more : Bounds} {d : CanonicalDocument} {s : Scope} {parts : Scope.Parts}
    (h : prepare more d = .ok (s, parts)) : (Fields.keys parts.schemas).Nodup := by
  obtain ⟨linked, hlinked, h⟩ := except_bind_ok.mp h
  obtain ⟨found, hfound, h⟩ := except_bind_ok.mp h
  cases h
  have hkeys := keysDistinct_ofFields (except_mapError_ok.mp hlinked)
  have hs := Scope.within_ofLinked linked ((Bounds.ofDocument linked.document).widened more)
  obtain ⟨info, -, hfound⟩ := except_bind_ok.mp hfound
  obtain ⟨components, hcomponents, hfound⟩ := except_bind_ok.mp hfound
  obtain ⟨schemas, hschemas, hfound⟩ := except_bind_ok.mp hfound
  cases hfound
  have hroot : LocatedFields linked.document (Node.root linked.document).fields :=
    fun e he => (Located.root _).field he
  have hlocated := hs.fieldsOf (hroot.get? "components") hcomponents
  exact hs.nodup_keys_fieldsOf hkeys (hlocated.get? "schemas") hschemas

/-- Each schema of the whole document has a model. -/
theorem exists_model {more : Bounds} {d : CanonicalDocument} {s : Scope} {parts : Scope.Parts}
    (h : prepare more d = .ok (s, parts))
    (hmodels : s.models = modelNames (Fields.keys parts.schemas)) {key : String}
    (hkey : key ∈ Fields.keys parts.schemas) :
    ∃ model, Fields.get? s.models key = some model := by
  have hkeys : Fields.keys s.models = Fields.keys parts.schemas := by rw [hmodels, keys_modelNames]
  rw [← hkeys] at hkey
  obtain ⟨e, he, rfl⟩ := List.mem_map.mp hkey
  exact ⟨e.2, Fields.get?_of_mem (hkeys ▸ nodup_keys_schemas h) he⟩

/-! ### The whole document -/

namespace Scope

section

variable {s : Scope} {parts : Parts} {spec : ApiSpec} {p : Progress}
  (hmodels : s.models = modelNames (Fields.keys parts.schemas))
  (h : (s.interface parts).run { models := s.models.map Prod.snd } = .ok (spec, p))

include hmodels h

/-- When an interface has been taken, the names written are the names taken, each of them once. -/
theorem interface_names (hnodup : (Fields.keys parts.schemas).Nodup) :
    (∃ hoisted, p.models = hoisted ++ s.models.map Prod.snd) ∧ p.models.Nodup
      ∧ Fields.keys p.schemas ~ p.models ∧ ∀ m ∈ p.models, IsModelName m := by
  obtain ⟨hgrows, -⟩ := interface_grows (fun _ _ hget => mem_reserved hmodels hget) h
  obtain ⟨taken, written, htaken, hwritten, hperm, -⟩ := hgrows.history
  rw [List.nil_append] at hwritten
  rw [reserved_eq hmodels hnodup] at hperm
  refine ⟨⟨taken, htaken⟩, hgrows.fresh (hmodels ▸ nodup_modelNames _), ?_,
    hgrows.shape (hmodels ▸ isModelName_modelNames _)⟩
  rw [htaken, hwritten]
  exact hperm.trans List.perm_append_comm

/-- What was written is what is there. -/
theorem interface_schemas (hnodup : (Fields.keys parts.schemas).Nodup) :
    spec.schemas = p.schemas := by
  obtain ⟨-, hdistinct, hkeys, -⟩ := interface_names hmodels h hnodup
  obtain ⟨-, -, -, -, hschemas⟩ := interface_ok h
  exact hschemas.trans (Fields.ofEntries_eq_self (hkeys.nodup_iff.mpr hdistinct))

/-- A schema of the whole document is still there when the operations have been taken. -/
theorem interface_written {e : String × Node} {name : String} (he : e ∈ parts.schemas)
    (hname : Fields.get? s.models e.1 = some name) :
    ∃ schema q q', (s.component name e.2).run q = .ok (schema, q')
      ∧ (name, schema) ∈ p.schemas := by
  obtain ⟨p₁, paths, hcomponents, hoperations, -⟩ := interface_ok h
  obtain ⟨schema, q, q', hcomponent, hmem⟩ := components_written hcomponents he hname
  obtain ⟨hgrows, -⟩ :=
    operations_sound (fun _ _ hget => mem_reserved hmodels hget) paths hoperations
  obtain ⟨written, hwritten⟩ := hgrows.schemas_append
  refine ⟨schema, q, q', hcomponent, ?_⟩
  rw [hwritten]
  exact List.mem_append_left _ hmem

end

end Scope

/-! ### The table of schemas -/

/-- What holds of the names and of the table of schemas when an interface has been taken. -/
structure NoneLost (s : Scope) (schemas : Fields Node) (spec : ApiSpec) (p : Progress) : Prop where
  /-- The models for the schemas of the document follow from their names in order. -/
  models : s.models = modelNames (Fields.keys schemas)
  /-- Every schema of the document has a model. -/
  named : ∀ key ∈ Fields.keys schemas, ∃ model, Fields.get? s.models key = some model
  /-- No two schemas of the document have the same model. -/
  injective : ∀ {a b model}, Fields.get? s.models a = some model →
    Fields.get? s.models b = some model → a = b
  /-- The names of other models are different from each other and from those. -/
  hoisted : ∃ hoisted, p.models = hoisted ++ s.models.map Prod.snd ∧ hoisted.Nodup
    ∧ ∀ name ∈ hoisted, name ∉ s.models.map Prod.snd
  /-- Every write goes to a key that is not there yet. -/
  fresh : ∀ before e after, p.schemas = before ++ e :: after → e.1 ∉ Fields.keys before
  /-- What was written is what is there. -/
  written : spec.schemas = p.schemas
  /-- Every name that was taken has its schema, and there are no others. -/
  taken : Fields.keys spec.schemas ~ p.models
  /-- Every schema of the document is there as it was made, under its model. -/
  kept : ∀ e ∈ schemas, ∃ name schema q q', Fields.get? s.models e.1 = some name
    ∧ (s.component name e.2).run q = .ok (schema, q') ∧ spec.schema? name = some schema
  /-- Every key begins with a capital and consists of ASCII letters and digits. -/
  shape : ∀ key ∈ Fields.keys spec.schemas, IsModelName key

/-- The schemas of an interface have names of their own, in the shape of names for models. -/
theorem keys_of_extract {d : CanonicalDocument} {spec : ApiSpec} (h : extract d = .ok spec) :
    (Fields.keys spec.schemas).Nodup ∧ ∀ key ∈ Fields.keys spec.schemas, IsModelName key := by
  obtain ⟨s, parts, p, hprepare, hmodels, hrun⟩ := extract_ok h
  obtain ⟨-, hnodup, hkeys, hshape⟩ :=
    Scope.interface_names hmodels hrun (nodup_keys_schemas hprepare)
  rw [Scope.interface_schemas hmodels hrun (nodup_keys_schemas hprepare)]
  exact ⟨hkeys.nodup_iff.mpr hnodup, fun key hkey => hshape key (hkeys.mem_iff.mp hkey)⟩

/-- **No schema is lost**: every model has a name of its own, and nothing is written over. -/
theorem noneLost_of_extract {d : CanonicalDocument} {spec : ApiSpec} (h : extract d = .ok spec) :
    ∃ s parts p, prepare {} d = .ok (s, parts)
      ∧ (s.interface parts).run { models := s.models.map Prod.snd } = .ok (spec, p)
      ∧ NoneLost s parts.schemas spec p := by
  obtain ⟨s, parts, p, hprepare, hmodels, hrun⟩ := extract_ok h
  obtain ⟨⟨hoisted, hhoisted⟩, hnodup, hkeys, hshape⟩ :=
    Scope.interface_names hmodels hrun (nodup_keys_schemas hprepare)
  have hdistinct : (Fields.keys p.schemas).Nodup := hkeys.nodup_iff.mpr hnodup
  have hwritten : spec.schemas = p.schemas := by
    obtain ⟨-, -, -, -, hschemas⟩ := Scope.interface_ok hrun
    exact hschemas.trans (Fields.ofEntries_eq_self hdistinct)
  have hnamed : ∀ key ∈ Fields.keys parts.schemas, ∃ model, Fields.get? s.models key = some model :=
    fun key hkey => exists_model hprepare hmodels hkey
  refine ⟨s, parts, p, hprepare, hrun, hmodels, hnamed, ?_, ?_, ?_, hwritten, hwritten ▸ hkeys,
    ?_, ?_⟩
  · intro a b model ha hb
    rw [hmodels] at ha hb
    exact modelNames_injective ha hb
  · rw [hhoisted] at hnodup
    obtain ⟨hdifferent, -, hapart⟩ := List.nodup_append.mp hnodup
    exact ⟨hoisted, hhoisted, hdifferent, fun name hname hmodel =>
      hapart name hname name hmodel rfl⟩
  · intro before e after hsplit
    rw [hsplit] at hdistinct
    exact Fields.not_mem_keys_before hdistinct
  · intro e he
    obtain ⟨name, hname⟩ := hnamed e.1 (Fields.mem_keys_of_mem he)
    obtain ⟨schema, q, q', hcomponent, hmem⟩ := Scope.interface_written hmodels hrun he hname
    refine ⟨name, schema, q, q', hname, hcomponent, ?_⟩
    rw [ApiSpec.schema?, hwritten]
    exact Fields.get?_of_mem hdistinct hmem
  · intro key hkey
    rw [hwritten] at hkey
    exact hshape key (hkeys.mem_iff.mp hkey)

theorem noneLost_nodeDocument :
    ∃ spec s parts p, extract nodeDocument = .ok spec
      ∧ Fields.keys spec.schemas = ["NodeKind", "Node", "Node2"]
      ∧ prepare {} nodeDocument = .ok (s, parts) ∧ NoneLost s parts.schemas spec p := by
  have hkeys : (extract nodeDocument).toOption.map (fun spec => Fields.keys spec.schemas)
      = some ["NodeKind", "Node", "Node2"] := by decide +kernel
  obtain ⟨spec, hspec⟩ := except_exists_ok (x := extract nodeDocument) (by decide +kernel)
  obtain ⟨s, parts, p, hprepare, -, hlost⟩ := noneLost_of_extract hspec
  rw [hspec] at hkeys
  exact ⟨spec, s, parts, p, hspec, by simpa [Except.toOption] using hkeys, hprepare, hlost⟩

end ApiClientGen.Extraction
