/-
What every interface taken out of a document is like.

The names for the schemas of the whole document are reserved before any of them is made, so
that they can refer to each other.  When all of them are made, each reserved name has been
written, and so has each name that was taken on the way.  From then on the names reserved are
among those written, and the types that were closed over both are closed over the schemas of
the interface.
-/
import ApiClientGen.Proofs.Extraction.SoundTypes

namespace ApiClientGen.Extraction

open ApiClientGen.Canonical ApiClientGen.Document ApiClientGen.Reference ApiClientGen.Spec Extract
open scoped List

namespace Scope

variable {s : Scope} {p p' : Progress} {u : Unit}

/-! ### Schemas of the whole document -/

theorem components_nil_ok (h : (s.components []).run p = .ok (u, p')) : p = p' :=
  (pure_ok.mp h).2

/-- A schema of the whole document is made and then written under its name. -/
theorem components_cons_ok {e : String × Node} {schemas : Fields Node}
    (h : (s.components (e :: schemas)).run p = .ok (u, p')) :
    (Fields.get? s.models e.1 = none ∧ (s.components schemas).run p = .ok (u, p'))
      ∨ ∃ name schema p₁, Fields.get? s.models e.1 = some name
          ∧ (s.component name e.2).run p = .ok (schema, p₁)
          ∧ (s.components schemas).run { p₁ with schemas := p₁.schemas ++ [(name, schema)] }
              = .ok (u, p') := by
  obtain ⟨_, p₂, hfirst, hrest⟩ := bind_ok.mp h
  dsimp only at hfirst
  split at hfirst
  · rename_i name hname
    obtain ⟨schema, p₁, hschema, hkeep⟩ := bind_ok.mp hfirst
    obtain rfl := keep_ok.mp hkeep
    exact Or.inr ⟨name, schema, p₁, hname, hschema, hrest⟩
  · rename_i hname
    obtain ⟨-, rfl⟩ := pure_ok.mp hfirst
    exact Or.inl ⟨hname, hrest⟩

/-- The names reserved for some schemas of the whole document. -/
def reserved (s : Scope) (schemas : Fields Node) : List String :=
  schemas.filterMap fun e => Fields.get? s.models e.1

theorem reserved_cons_of_none {e : String × Node} {schemas : Fields Node}
    (h : Fields.get? s.models e.1 = none) : s.reserved (e :: schemas) = s.reserved schemas := by
  simp [reserved, h]

theorem reserved_cons_of_some {e : String × Node} {schemas : Fields Node} {name : String}
    (h : Fields.get? s.models e.1 = some name) :
    s.reserved (e :: schemas) = [name] ++ s.reserved schemas := by
  simp [reserved, h]

theorem components_grows {known : List String} {schemas : Fields Node}
    (hmodels : ∀ name model, Fields.get? s.models name = some model → model ∈ known)
    (h : (s.components schemas).run p = .ok (u, p')) : Grows known (s.reserved schemas) p p' := by
  induction schemas generalizing p with
  | nil =>
      obtain rfl := components_nil_ok h
      exact .refl p
  | cons e schemas ih =>
      rcases components_cons_ok h with ⟨hnone, hrest⟩ | ⟨name, schema, p₁, hname, hschema, hrest⟩
      · rw [reserved_cons_of_none hnone]
        exact ih hrest
      · rw [reserved_cons_of_some hname]
        obtain ⟨hgrows, hclosed⟩ := component_sound hmodels name e.2 hschema
        exact (hgrows.keep (component_name hschema) hclosed).trans (ih hrest)

/-! ### The whole document -/

/-- The schemas of the whole document are made first, then the operations of its paths. -/
theorem interface_paths_ok {parts : Parts} {spec : ApiSpec}
    (h : (s.interface parts).run p = .ok (spec, p')) :
    ∃ p₁ paths, s.fieldsOf (Fields.get? parts.document "paths") = .ok paths
      ∧ (s.components parts.schemas).run p = .ok ((), p₁)
      ∧ (s.operations paths).run p₁ = .ok (spec.operations, p')
      ∧ spec.schemas = Fields.ofEntries p'.schemas := by
  unfold interface at h
  obtain ⟨_, p₁, hcomponents, h⟩ := bind_ok.mp h
  obtain ⟨paths, hpaths, h⟩ := lift_bind_ok.mp h
  obtain ⟨operations, p₂, hoperations, h⟩ := bind_ok.mp h
  obtain ⟨title, -, h⟩ := lift_bind_ok.mp h
  obtain ⟨version, -, h⟩ := lift_bind_ok.mp h
  obtain ⟨description, -, h⟩ := lift_bind_ok.mp h
  obtain ⟨servers, -, h⟩ := lift_bind_ok.mp h
  obtain ⟨p₃, p₄, hget, h⟩ := bind_ok.mp h
  obtain ⟨rfl, rfl⟩ := get_ok.mp hget
  obtain ⟨securitySchemes, -, h⟩ := lift_bind_ok.mp h
  obtain ⟨rfl, rfl⟩ := pure_ok.mp h
  exact ⟨p₁, paths, hpaths, hcomponents, hoperations, rfl⟩

theorem interface_ok {parts : Parts} {spec : ApiSpec}
    (h : (s.interface parts).run p = .ok (spec, p')) :
    ∃ p₁ paths,
      (s.components parts.schemas).run p = .ok ((), p₁)
        ∧ (s.operations paths).run p₁ = .ok (spec.operations, p')
        ∧ spec.schemas = Fields.ofEntries p'.schemas := by
  obtain ⟨p₁, paths, -, hrun⟩ := interface_paths_ok h
  exact ⟨p₁, paths, hrun⟩

/-- What is added in all while an interface is taken out of a document. -/
theorem interface_grows {known : List String} {parts : Parts} {spec : ApiSpec}
    (hmodels : ∀ name model, Fields.get? s.models name = some model → model ∈ known)
    (h : (s.interface parts).run p = .ok (spec, p')) :
    Grows known (s.reserved parts.schemas) p p'
      ∧ ∀ t ∈ spec.operations.flatMap Operation.types, t.Closed (p'.names known) := by
  obtain ⟨p₁, paths, hcomponents, hoperations, -⟩ := interface_ok h
  obtain ⟨hgrows, hclosed⟩ := operations_sound hmodels paths hoperations
  refine ⟨?_, hclosed⟩
  simpa using (components_grows hmodels hcomponents).trans hgrows

end Scope

/-! ### Names of schemas -/

theorem keys_foldl_modelNames (schemas : List String) (named : Fields String) :
    Fields.keys (schemas.foldl (fun named name =>
      named ++ [(name, freeModelName (named.map Prod.snd) name)]) named)
      = Fields.keys named ++ schemas := by
  induction schemas generalizing named with
  | nil => simp
  | cons name schemas ih =>
      rw [List.foldl_cons, ih]
      simp [Fields.keys]

/-- Each schema gets a name. -/
theorem keys_modelNames (schemas : List String) : Fields.keys (modelNames schemas) = schemas := by
  exact keys_foldl_modelNames schemas []

/-- An interface is taken from the state in which the schemas of the document have their names. -/
theorem extract_ok {d : CanonicalDocument} {spec : ApiSpec} (h : extract d = .ok spec) :
    ∃ s parts p, prepare {} d = .ok (s, parts)
      ∧ s.models = modelNames (Fields.keys parts.schemas)
      ∧ (s.interface parts).run { models := s.models.map Prod.snd } = .ok (spec, p) := by
  obtain ⟨⟨_, p⟩, hrun, hspec⟩ := except_bind_ok.mp h
  obtain rfl := except_pure_ok.mp hspec
  obtain ⟨⟨s, parts⟩, hprepare, hrun⟩ := except_bind_ok.mp hrun
  refine ⟨s, parts, p, hprepare, ?_, hrun⟩
  unfold prepare at hprepare
  obtain ⟨linked, -, hprepare⟩ := except_bind_ok.mp hprepare
  obtain ⟨found, -, hprepare⟩ := except_bind_ok.mp hprepare
  cases except_pure_ok.mp hprepare
  rfl

/-- The model of a schema is among the names reserved for all schemas. -/
theorem mem_reserved {s : Scope} {schemas : Fields Node}
    (hmodels : s.models = modelNames (Fields.keys schemas)) {name model : String}
    (h : Fields.get? s.models name = some model) : model ∈ s.reserved schemas := by
  have hkey : name ∈ Fields.keys schemas := by
    rw [← keys_modelNames (Fields.keys schemas), ← hmodels]
    exact Fields.mem_keys_of_get? h
  obtain ⟨e, he, rfl⟩ := List.mem_map.mp hkey
  exact List.mem_filterMap.mpr ⟨e, he, h⟩

/-- An interface that is taken with the names of its schemas reserved is closed. -/
theorem Scope.interface_closed {s : Scope} {parts : Parts} {spec : ApiSpec} {p : Progress}
    (hmodels : s.models = modelNames (Fields.keys parts.schemas))
    (hrun : (s.interface parts).run { models := s.models.map Prod.snd } = .ok (spec, p)) :
    spec.Closed := by
  obtain ⟨hgrows, hoperations⟩ :=
    Scope.interface_grows (fun _ _ hget => mem_reserved hmodels hget) hrun
  obtain ⟨-, -, -, -, hschemas⟩ := Scope.interface_ok hrun
  obtain ⟨taken, written, -, hwritten, hperm, hclosed⟩ := hgrows.history
  rw [List.nil_append] at hwritten
  -- The names reserved have been written by now, so that they need not be told apart.
  have hnames : p.names (s.reserved parts.schemas) ⊆ Fields.keys spec.schemas := by
    intro name hname
    rw [hschemas, Fields.mem_keys_ofEntries]
    rcases List.mem_append.mp hname with hreserved | hkey
    · rw [hwritten]
      exact hperm.mem_iff.mpr (List.mem_append_left _ hreserved)
    · exact hkey
  have hentries : ∀ e ∈ spec.schemas, e ∈ written := fun e he => by
    rw [hschemas, hwritten] at he
    exact Fields.mem_ofEntries he
  refine ⟨fun t ht => ?_, fun e he => (hclosed e (hentries e he)).1⟩
  rcases List.mem_append.mp ht with ht | ht
  · obtain ⟨e, he, ht⟩ := List.mem_flatMap.mp ht
    exact ((hclosed e (hentries e he)).2 t ht).mono hnames
  · exact (hoperations t ht).mono hnames

/-- **Every interface is closed**: its types are complete, its schemas stand under their names. -/
theorem closed_of_extract {d : CanonicalDocument} {spec : ApiSpec} (h : extract d = .ok spec) :
    spec.Closed := by
  obtain ⟨s, parts, p, -, hmodels, hrun⟩ := extract_ok h
  exact Scope.interface_closed hmodels hrun

/-- A schema that refers to itself and into its own interior, and one named like it. -/
def nodeDocument : CanonicalDocument where
  info := [("title", .string "Nodes")]
  paths := [("/nodes", .mapping [("get", .mapping [("responses", .mapping [("200", .mapping [
    ("content", .mapping [("application/json", .mapping [("schema", .mapping [
      ("type", .string "array"),
      ("items", .mapping [("$ref", .string "#/components/schemas/node")])])])])])])])])]
  components := [("schemas", .mapping [
    ("node", .mapping [("properties", .mapping [
      ("next", .mapping [("$ref", .string "#/components/schemas/node")]),
      ("kind", .mapping [("enum", .list [.string "leaf", .string "fork"])]),
      ("tree", .mapping [
        ("type", .string "array"),
        ("items", .mapping [("$ref", .string "#/components/schemas/node/properties/tree")])])])]),
    ("Node", .mapping [("$ref", .string "#/components/schemas/node")])])]

theorem closed_nodeDocument :
    ∃ spec, extract nodeDocument = .ok spec
      ∧ Fields.keys spec.schemas = ["NodeKind", "Node", "Node2"] ∧ spec.Closed := by
  have hkeys : (extract nodeDocument).toOption.map (fun spec => Fields.keys spec.schemas)
      = some ["NodeKind", "Node", "Node2"] := by decide +kernel
  obtain ⟨spec, hspec⟩ := except_exists_ok (x := extract nodeDocument) (by decide +kernel)
  rw [hspec] at hkeys
  exact ⟨spec, hspec, by simpa [Except.toOption] using hkeys, closed_of_extract hspec⟩

end ApiClientGen.Extraction
