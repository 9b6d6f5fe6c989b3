/-
More paths at the end of a document.

Names are taken in the order in which things come up, so what is added at the end of the paths
comes too late to change a name: the operations and schemas of the shorter document come first
in the longer one, with the same names and the same content.  For this, references have to lead
to the same things in both documents, and so they do if they all lead into the components.

There is one entry that is no path and changes everything.  With a text under the key of
references the paths as a whole become a reference, and none of those that stand beside the text
is looked at any more.
-/
import ApiClientGen.Proofs.Extraction.SchemaTable
import ApiClientGen.Proofs.Extraction.Sharing
import ApiClientGen.Proofs.Reference.Addresses

namespace ApiClientGen.Extraction

open ApiClientGen.Canonical ApiClientGen.Document ApiClientGen.Reference ApiClientGen.Spec
  ApiClientGen.Reference.Linked Extract

namespace Scope

variable {s t : Scope} {R : Kind → Node → Node → Prop} {p p' : Progress}

/-! ### More operations -/

/-- The operations of some paths come before those of the paths behind them. -/
theorem operations_append_ok {first rest : Fields Node} {operations : List Operation}
    (h : (s.operations (first ++ rest)).run p = .ok (operations, p')) :
    ∃ before after p₁, (s.operations first).run p = .ok (before, p₁)
      ∧ (s.operations rest).run p₁ = .ok (after, p') ∧ operations = before ++ after := by
  simp only [Scope.operations, List.mapM_append, bind_ok, pure_ok] at h ⊢
  obtain ⟨_, _, ⟨before, p₁, hbefore, after, p₂, hafter, rfl, rfl⟩, rfl, rfl⟩ := h
  exact ⟨before.flatten, after.flatten, p₁, ⟨before, p₁, hbefore, rfl, rfl⟩,
    ⟨after, p₂, hafter, rfl, rfl⟩, List.flatten_append⟩

/-- While operations are taken, schemas are only added. -/
theorem operations_schemas {paths : Fields Node} {operations : List Operation}
    (h : (s.operations paths).run p = .ok (operations, p')) : p.schemas <+: p'.schemas := by
  have hknown : ∀ name model, Fields.get? s.models name = some model →
      model ∈ s.models.map Prod.snd :=
    fun name model hget => List.mem_map.mpr ⟨_, Fields.mem_of_get? hget, rfl⟩
  obtain ⟨written, hwritten⟩ := (operations_sound hknown paths h).1.schemas_append
  exact ⟨written, hwritten.symm⟩

/-- **Two documents that are seen alike, part by part**, but for paths behind the others. -/
structure FirstParts (s t : Scope) (R : Kind → Node → Node → Prop) (parts parts' : Parts) :
    Prop where
  schemas : Fields.Related (fun _ => R .schema) parts.schemas parts'.schemas
  info : Fields.Related (fun _ => R .plain) parts.info parts'.info
  servers : Option.Rel (R .plain) (Fields.get? parts.document "servers")
    (Fields.get? parts'.document "servers")
  securitySchemes : Option.Rel (R .plain) (Fields.get? parts.components "securitySchemes")
    (Fields.get? parts'.components "securitySchemes")
  paths : Agree (fun paths paths' => ∃ first rest, paths' = first ++ rest
      ∧ Fields.Related (fun _ => R .pathItem) paths first)
    (s.fieldsOf (Fields.get? parts.document "paths")) (t.fieldsOf (Fields.get? parts'.document "paths"))

/--
**What is taken from the first paths is taken first**: if an interface can be taken with more
paths then it can without them, and has the same operations and schemas up to there.
-/
theorem Alike.interface_first (h : s.Alike t R) {parts parts' : Parts}
    (hparts : s.FirstParts t R parts parts') {spec' : ApiSpec}
    (hrun : (t.interface parts').run p = .ok (spec', p')) :
    ∃ spec p₁, (s.interface parts).run p = .ok (spec, p₁)
      ∧ spec.operations <+: spec'.operations ∧ p₁.schemas <+: p'.schemas
      ∧ spec.schemas = Fields.ofEntries p₁.schemas := by
  unfold Scope.interface at hrun ⊢
  obtain ⟨u, p₀, hcomponents, hrun⟩ := bind_ok.mp hrun
  obtain ⟨paths', hpaths', hrun⟩ := lift_bind_ok.mp hrun
  obtain ⟨operations, p₂, hoperations, hrun⟩ := bind_ok.mp hrun
  obtain ⟨title, htitle, hrun⟩ := lift_bind_ok.mp hrun
  obtain ⟨version, hversion, hrun⟩ := lift_bind_ok.mp hrun
  obtain ⟨description, hdescription, hrun⟩ := lift_bind_ok.mp hrun
  obtain ⟨servers, hservers, hrun⟩ := lift_bind_ok.mp hrun
  obtain ⟨p₃, p₄, hget, hrun⟩ := bind_ok.mp hrun
  obtain ⟨rfl, rfl⟩ := get_ok.mp hget
  obtain ⟨schemes, hschemes, hrun⟩ := lift_bind_ok.mp hrun
  obtain ⟨rfl, rfl⟩ := pure_ok.mp hrun
  have hpaths := hparts.paths
  rw [hpaths'] at hpaths
  generalize hfound : s.fieldsOf (Fields.get? parts.document "paths") = found at hpaths
  cases hpaths with
  | @ok paths _ hfirst =>
      obtain ⟨first, rest, rfl, hfirst⟩ := hfirst
      obtain ⟨before, after, p₁, hbefore, hafter, rfl⟩ := operations_append_ok hoperations
      have hsame : s.operations paths = t.operations first :=
        operations_eq (hfirst.mono fun _ _ _ hitem =>
          (h.fieldsOf (h.seen (.some hitem))).mono fun _ _ => h.samePath)
      refine ⟨_, p₁, bind_ok.mpr ⟨u, p₀, h.components hparts.schemas ▸ hcomponents,
        lift_bind_ok.mpr ⟨paths, rfl, bind_ok.mpr ⟨before, p₁, hsame ▸ hbefore,
        lift_bind_ok.mpr ⟨title, h.textOf (hparts.info.get? "title") ▸ htitle,
        lift_bind_ok.mpr ⟨version, h.shownOrEmpty (hparts.info.get? "version") ▸ hversion,
        lift_bind_ok.mpr ⟨description, h.textOf (hparts.info.get? "description") ▸ hdescription,
        lift_bind_ok.mpr ⟨servers, h.servers hparts.servers ▸ hservers,
        bind_ok.mpr ⟨p₁, p₁, get_ok.mpr ⟨rfl, rfl⟩,
        lift_bind_ok.mpr ⟨schemes, h.securitySchemes hparts.securitySchemes ▸ hschemes,
        pure_ok.mpr ⟨rfl, rfl⟩⟩⟩⟩⟩⟩⟩⟩⟩⟩, List.prefix_append _ _, operations_schemas hafter, rfl⟩

end Scope

/-! ### Documents with more paths -/

/-- **Two documents that are the same but for paths at the end.** -/
structure MorePaths (t u paths more : Fields Value) : Prop where
  same : ∀ key, key ≠ "paths" → Fields.get? t key = Fields.get? u key
  left : Fields.get? t "paths" = some (.mapping paths)
  right : Fields.get? u "paths" = some (.mapping (paths ++ more))
  root : Fields.textAt? t refKey = none
  /-- The paths that are added do not make a reference of the others. -/
  plain : Fields.textAt? more refKey = none
  refs : RefsIn LeadsIntoComponents u

/-- The same node of two documents, whose references lead into the components. -/
abbrev ComponentTwins : Node → Node → Prop := Twins LeadsIntoComponents Eq

namespace MorePaths

variable {t u paths more : Fields Value} (h : MorePaths t u paths more)

include h

theorem root_get? {key : String} (hkey : key ≠ "paths") :
    Option.Rel ComponentTwins (Fields.get? (Node.root (.mapping t)).fields key)
      (Fields.get? (Node.root (.mapping u)).fields key) := by
  rw [get?_fields_node, get?_fields_node]
  show Option.Rel _ ((Fields.get? t key).map _) ((Fields.get? u key).map _)
  rw [h.same key hkey]
  cases hget : Fields.get? u key with
  | none => exact .none
  | some v => exact .some ⟨rfl, (RefsIn.get? h.refs hget).refs, rfl⟩

theorem shared : Shared ⟨.mapping t⟩ ⟨.mapping u⟩ LeadsIntoComponents Eq := by
  have hroot : Fields.textAt? u refKey = none := by
    rw [← Fields.textAt?_congr (h.same refKey (by decide)), h.root]
  have hcomponents := h.root_get? (show "components" ≠ "paths" by decide)
  rw [get?_fields_node, get?_fields_node] at hcomponents
  exact shared_of_components h.root hroot hcomponents fun _ href => href.target

variable (b : Bounds) (models : Fields String)

theorem alike : (scopeOf t b models).Alike (scopeOf u b models) fun _ => ComponentTwins :=
  alike_ofLinked h.shared b models

theorem tableOf {n m : Option Node} (hnm : Option.Rel ComponentTwins n m) :
    Agree (Fields.Related fun _ => ComponentTwins) ((scopeOf t b models).fieldsOf n)
      ((scopeOf u b models).fieldsOf m) :=
  (h.alike b models).tableOf (k := .plain) (c := .plain) (fun _ => ⟨rfl, by decide⟩)
    ((h.alike b models).seen (k := .plain) hnm)

/-- The paths of the shorter document come first in the longer one. -/
theorem pathsOf :
    Agree (fun found found' => ∃ first rest, found' = first ++ rest
        ∧ Fields.Related (fun _ => ComponentTwins) found first)
      ((scopeOf t b models).fieldsOf (Fields.get? (Node.root (.mapping t)).fields "paths"))
      ((scopeOf u b models).fieldsOf (Fields.get? (Node.root (.mapping u)).fields "paths")) := by
  have hleft : Fields.get? (Node.root (.mapping t)).fields "paths"
      = some ⟨[.field "paths"], .mapping paths⟩ := by
    rw [get?_fields_node, Node.field?]
    exact congrArg (Option.map _) h.left
  have hright : Fields.get? (Node.root (.mapping u)).fields "paths"
      = some ⟨[.field "paths"], .mapping (paths ++ more)⟩ := by
    rw [get?_fields_node, Node.field?]
    exact congrArg (Option.map _) h.right
  have hall : RefsIn LeadsIntoComponents (paths ++ more) :=
    (RefsIn.get? h.refs h.right).refs
  have hrefs : RefsIn LeadsIntoComponents paths := hall.subset (List.subset_append_left _ _)
  have htext : Fields.textAt? (paths ++ more) refKey = Fields.textAt? paths refKey := by
    have hplain := h.plain
    unfold Fields.textAt? at hplain ⊢
    rw [Fields.get?_append]
    cases Fields.get? paths refKey with
    | none => exact hplain
    | some v => rfl
  have hsame : Node.ref? ⟨[.field "paths"], .mapping (paths ++ more)⟩
      = Node.ref? ⟨[.field "paths"], .mapping paths⟩ := htext
  rw [hleft, hright]
  cases href : Node.ref? ⟨[.field "paths"], .mapping paths⟩ with
  | none =>
      rw [fieldsOf_of_follow (follow_scopeOf href),
        fieldsOf_of_follow (follow_scopeOf (hsame.trans href))]
      refine .ok ⟨_, _, List.map_append, ?_⟩
      have htwins : ComponentTwins ⟨[.field "paths"], .mapping paths⟩
          ⟨[.field "paths"], .mapping paths⟩ := ⟨rfl, hrefs, rfl⟩
      exact htwins.fields corresponding_eq
  | some ref =>
      -- The paths are a reference, which leads away from those that are added, too.
      have hlead : LeadsIntoComponents ref := by
        have htwins : Refs LeadsIntoComponents (Value.mapping paths) := hrefs
        exact refs_ref? (n := ⟨[.field "paths"], .mapping paths⟩) htwins href
      have hfollow : Agree ComponentTwins
          ((scopeOf t b models).follow ⟨[.field "paths"], .mapping paths⟩)
          ((scopeOf u b models).follow ⟨[.field "paths"], .mapping (paths ++ more)⟩) :=
        (h.shared.followWithin_ref (n := ⟨[.field "paths"], .mapping paths⟩)
          (m := ⟨[.field "paths"], .mapping (paths ++ more)⟩) b.chain rfl href (hsame.trans href)
          hlead).mapError
          Failure.reference
      refine ((h.alike b models).tableOf (k := .plain) (c := .plain) (fun _ => ⟨rfl, by decide⟩)
        (.some hfollow)).mono fun found found' hfound => ?_
      exact ⟨found', [], (List.append_nil _).symm, hfound⟩

/-- The parts of both documents, whatever names the models have. -/
theorem parts :
    Agree (fun parts parts' => Fields.keys parts.schemas = Fields.keys parts'.schemas
        ∧ ∀ models, (scopeOf t b models).FirstParts (scopeOf u b models) (fun _ => ComponentTwins)
          parts parts')
      ((scopeOf t b models).parts (.mapping t)) ((scopeOf u b models).parts (.mapping u)) := by
  unfold Scope.parts
  refine (h.tableOf b models (h.root_get? (by decide))).bind fun info info' hinfo => ?_
  refine (h.tableOf b models (h.root_get? (by decide))).bind
    fun components components' hcomponents => ?_
  refine (h.tableOf b models (hcomponents.get? "schemas")).bind
    fun schemas schemas' hschemas => .ok ⟨hschemas.keys, fun models => ?_⟩
  exact ⟨hschemas, hinfo, h.root_get? (by decide), hcomponents.get? "securitySchemes",
    h.pathsOf b models⟩

omit b models in
/-- The shorter document can be linked if the longer one can. -/
theorem linkable (hkeys : (Fields.keys t).Nodup) (hnone : misplaced? (.mapping u) = none) :
    misplaced? (.mapping t) = none := by
  obtain ⟨hfields, href⟩ := misplaced?_mapping.mp hnone
  refine misplaced?_mapping.mpr ⟨fun e he => ?_, h.same refKey (by decide) ▸ href⟩
  have hget := Fields.get?_of_mem hkeys he
  by_cases hkey : e.1 = "paths"
  · rw [hkey, h.left, Option.some.injEq] at hget
    obtain ⟨hpaths, hpathsRef⟩ := misplaced?_mapping.mp (hfields _ (Fields.mem_of_get? h.right))
    rw [← hget]
    refine misplaced?_mapping.mpr ⟨fun e he => hpaths e (List.mem_append_left _ he), ?_⟩
    rw [Fields.get?_append] at hpathsRef
    cases hfirst : Fields.get? paths refKey with
    | none => rfl
    | some v =>
        rw [hfirst] at hpathsRef
        exact hpathsRef
  · rw [h.same _ hkey] at hget
    exact hfields _ (Fields.mem_of_get? hget)

end MorePaths

/-- A canonical form and the same one with more paths, linked. -/
theorem morePaths_linkedFields {d : CanonicalDocument} {more : Fields Value} (hd : d.IsSorted)
    (hkeys : (Fields.keys (d.paths ++ more)).Nodup) (hplain : Fields.textAt? more "$ref" = none)
    (hrefs : RefsIn LeadsIntoComponents { d with paths := d.paths ++ more }.fields) :
    MorePaths (linkedFields d) (linkedFields { d with paths := d.paths ++ more })
      (d.paths.map fun e => (e.1, withoutBytes e.2)) (more.map fun e => (e.1, withoutBytes e.2)) := by
  have hlinked : ∀ {e : CanonicalDocument} (key : String), e.IsSorted →
      Fields.get? (linkedFields e) key = (Fields.get? e.fields key).map withoutBytes := by
    intro e key he
    rw [linkedFields_eq_map, Fields.get?_map fun _ => withoutBytes]
  have hpaths : ∀ {e : CanonicalDocument}, e.IsSorted → (Fields.keys e.paths).Nodup →
      Fields.get? (linkedFields e) "paths"
        = some (.mapping (e.paths.map fun e => (e.1, withoutBytes e.2))) := by
    intro e he hnodup
    rw [hlinked _ he, CanonicalDocument.get?_fields he (by decide),
      CanonicalDocument.get?_fixedFields, ← withoutBytes_mapping hnodup]
    simp [Fields.get?]
  have hmore : ({ d with paths := d.paths ++ more } : CanonicalDocument).IsSorted :=
    ⟨hd.nodup, hd.extension⟩
  rw [Fields.keys_append] at hkeys
  have hsame : Fields.Related (fun key v w => key ≠ "paths" → v = w) d.fields
      { d with paths := d.paths ++ more }.fields :=
    related_fields (fun _ _ _ => rfl) fun h => absurd rfl h
  refine ⟨fun key hkey => ?_, hpaths hd (List.nodup_append.mp hkeys).1, ?_,
    textAt?_ofEntries_fields hd, ?_, ?_⟩
  · rw [hlinked _ hd, hlinked _ hmore, hsame.get?_eq fun _ _ heq => heq hkey]
  · rw [← List.map_append]
    exact hpaths hmore (by rwa [Fields.keys_append])
  · exact (textAt?_withoutBytes more refKey).trans hplain
  · exact (refsIn_fieldsWithoutBytes _ hrefs).ofEntries

/-- What is looked at in a document that can be linked, within bounds that are wide enough. -/
theorem prepare_eq {d : CanonicalDocument} {t : Fields Value}
    (hd : Linked.ofFields d.fields = .ok ⟨.mapping t⟩) (more : Bounds) :
    prepare more d = (do
      let b := (Bounds.ofDocument (.mapping t)).widened more
      let parts ← (scopeOf t b []).parts (.mapping t)
      return (scopeOf t b (modelNames (Fields.keys parts.schemas)), parts)) := by
  unfold prepare
  rw [hd]
  rfl

/-- A document that describes an interface can be linked. -/
theorem ofFields_of_extract {d : CanonicalDocument} {spec : ApiSpec} (h : extract d = .ok spec) :
    Linked.ofFields d.fields = .ok ⟨.mapping (linkedFields d)⟩ := by
  obtain ⟨_, hrun, _⟩ := except_bind_ok.mp h
  obtain ⟨_, hprepare, _⟩ := except_bind_ok.mp hrun
  obtain ⟨linked, hlinked, -⟩ := except_bind_ok.mp hprepare
  obtain ⟨rfl, hnone⟩ := ofFields_eq_ok.mp (except_mapError_ok.mp hlinked)
  exact ofFields_linkedFields hnone

/-- The interface of the longer document begins with that of the shorter one. -/
theorem MorePaths.extract {d e : CanonicalDocument} {t u paths more : Fields Value}
    (h : MorePaths t u paths more) (hd : Linked.ofFields d.fields = .ok ⟨.mapping t⟩)
    (he : Linked.ofFields e.fields = .ok ⟨.mapping u⟩) {spec' : ApiSpec}
    (hspec : extract e = .ok spec') :
    ∃ spec, extract d = .ok spec ∧ spec.operations <+: spec'.operations
      ∧ spec.schemas <+: spec'.schemas := by
  -- Both documents are looked at within the bounds of both.
  obtain ⟨b, hb, hb'⟩ : ∃ b,
      b = (Bounds.ofDocument (.mapping t)).widened (Bounds.ofDocument (.mapping u))
        ∧ b = (Bounds.ofDocument (.mapping u)).widened (Bounds.ofDocument (.mapping t)) :=
    ⟨_, rfl, by simp [Bounds.widened, Nat.add_comm]⟩
  obtain ⟨⟨_, p'⟩, hrun, hspec⟩ := except_bind_ok.mp hspec
  obtain rfl := except_pure_ok.mp hspec
  rw [← run_widened (Bounds.ofDocument (.mapping t))] at hrun
  obtain ⟨⟨s, parts'⟩, hprepare, hrun⟩ := except_bind_ok.mp hrun
  have hnodup := nodup_keys_schemas hprepare
  rw [prepare_eq he, ← hb'] at hprepare
  obtain ⟨_, hparts', hprepare⟩ := except_bind_ok.mp hprepare
  cases except_pure_ok.mp hprepare
  have hagree := h.parts b []
  rw [hparts'] at hagree
  generalize hparts : (scopeOf t b []).parts (.mapping t) = found at hagree
  cases hagree with
  | @ok parts _ hfirst =>
      obtain ⟨hkeys, hfirst⟩ := hfirst
      obtain ⟨spec, p, hrunFirst, hoperations, hwritten, hschemas⟩ :=
        (h.alike b _).interface_first (hfirst _) hrun
      refine ⟨spec, ?_, hoperations, ?_⟩
      · have hprepareFirst : prepare (Bounds.ofDocument (.mapping u)) d
            = .ok (scopeOf t b (modelNames (Fields.keys parts'.schemas)), parts) := by
          rw [prepare_eq hd, ← hb]
          exact except_bind_ok.mpr ⟨parts, hparts, by rw [hkeys]; rfl⟩
        rw [Extraction.extract, ← run_widened (Bounds.ofDocument (.mapping u))]
        exact except_bind_ok.mpr ⟨_, except_bind_ok.mpr ⟨_, hprepareFirst, hrunFirst⟩, rfl⟩
      · obtain ⟨-, hmodels, hwrittenKeys, -⟩ := Scope.interface_names rfl hrun hnodup
        have hdistinct : (Fields.keys p'.schemas).Nodup := hwrittenKeys.nodup_iff.mpr hmodels
        obtain ⟨-, -, -, -, hall⟩ := Scope.interface_ok hrun
        rw [hschemas, hall, Fields.ofEntries_eq_self hdistinct,
          Fields.ofEntries_eq_self ((hwritten.map Prod.fst).sublist.nodup hdistinct)]
        exact hwritten

/--
**More paths at the end rename nothing.**  If a document with further paths describes an
interface then so does the document without them, and its operations and schemas come first in
the other one's.
-/
theorem extract_morePaths {d : CanonicalDocument} {more : Fields Value} (hd : d.IsSorted)
    (hkeys : (Fields.keys (d.paths ++ more)).Nodup) (hplain : Fields.textAt? more "$ref" = none)
    (hrefs : RefsIn LeadsIntoComponents { d with paths := d.paths ++ more }.fields)
    {spec' : ApiSpec} (h : extract { d with paths := d.paths ++ more } = .ok spec') :
    ∃ spec, extract d = .ok spec ∧ spec.operations <+: spec'.operations
      ∧ spec.schemas <+: spec'.schemas := by
  have hmore := morePaths_linkedFields hd hkeys hplain hrefs
  have hlonger := ofFields_of_extract h
  have hshorter := ofFields_linkedFields
    (hmore.linkable (Fields.nodup_keys_ofEntries _) (ofFields_eq_ok.mp hlonger).2)
  exact hmore.extract hshorter hlonger h

/-- The paths of a document with one operation, which gives pets. -/
def petPaths : Fields Value :=
  [("/pets", .mapping [("get", .mapping [("responses", .mapping [("200", .mapping
    [("content", .mapping [("application/json", .mapping [("schema", .mapping
      [("type", .string "array"),
        ("items", .mapping [("$ref", .string "#/components/schemas/Pet")])])])])])])])])]

/-- A document about pets, with a section of the components that is empty. -/
def petDocument : CanonicalDocument where
  info := [("title", .string "Pets")]
  paths := petPaths
  components :=
    [("schemas", .mapping [("Pet", .mapping [("properties", .mapping
        [("kind", .mapping [("enum", .list [.string "cat", .string "dog"])])])])]),
      ("pathItems", .mapping [])]

/-- A path whose operation and model would have the names of others. -/
def laterPaths : Fields Value :=
  [("/pets/", .mapping [("get", .mapping [("operationId", .string "getPets"),
    ("responses", .mapping [("200", .mapping [("content", .mapping [("application/json", .mapping
      [("schema", .mapping [("properties", .mapping
        [("pet", .mapping [("$ref", .string "#/components/schemas/Pet")])])])])])])])])])]

/-- The names of the operations and schemas of an interface. -/
def namesOf (d : CanonicalDocument) : Option (List String × List String) :=
  (extract d).toOption.map fun spec => (spec.operations.map Operation.name, Fields.keys spec.schemas)

theorem extract_morePaths_petDocument :
    ∃ spec spec', extract petDocument = .ok spec
      ∧ extract { petDocument with paths := petDocument.paths ++ laterPaths } = .ok spec'
      ∧ spec.operations <+: spec'.operations ∧ spec.schemas <+: spec'.schemas
      ∧ namesOf petDocument = some (["get_pets"], ["PetKind", "Pet"])
      ∧ namesOf { petDocument with paths := petDocument.paths ++ laterPaths }
        = some (["get_pets", "get_pets_2"], ["PetKind", "Pet", "GetPets2Response"]) := by
  obtain ⟨spec', hspec'⟩ := except_exists_ok
    (x := extract { petDocument with paths := petDocument.paths ++ laterPaths }) (by decide +kernel)
  obtain ⟨spec, hspec, hoperations, hschemas⟩ := extract_morePaths ⟨by decide, by decide⟩ (by decide)
    (by decide) (by decide +kernel) hspec'
  exact ⟨spec, spec', hspec, hspec', hoperations, hschemas, by decide +kernel, by decide +kernel⟩

/--
**With a text under the key of references the operations are lost**: the paths as a whole become
a reference then.
-/
theorem not_prefix_petDocument :
    ¬ ∀ (d : CanonicalDocument) (more : Fields Value), d.IsSorted →
      (Fields.keys (d.paths ++ more)).Nodup →
      RefsIn LeadsIntoComponents { d with paths := d.paths ++ more }.fields →
      ∀ spec spec', extract d = .ok spec → extract { d with paths := d.paths ++ more } = .ok spec' →
        spec.operations <+: spec'.operations ∧ spec.schemas <+: spec'.schemas := by
  intro h
  have hnames : namesOf petDocument = some (["get_pets"], ["PetKind", "Pet"]) := by decide +kernel
  have hnames' : namesOf { petDocument with
      paths := petDocument.paths ++ [("$ref", .string "#/components/pathItems")] }
        = some ([], ["PetKind", "Pet"]) := by decide +kernel
  obtain ⟨spec, hspec⟩ := except_exists_ok (x := extract petDocument) (by decide +kernel)
  obtain ⟨spec', hspec'⟩ := except_exists_ok (x := extract { petDocument with
    paths := petDocument.paths ++ [("$ref", .string "#/components/pathItems")] }) (by decide +kernel)
  obtain ⟨hbegins, -⟩ := h _ _ ⟨by decide, by decide⟩ (by decide) (by decide +kernel) spec spec'
    hspec hspec'
  rw [namesOf, hspec] at hnames
  rw [namesOf, hspec'] at hnames'
  simp only [Except.toOption, Option.map_some, Option.some.injEq, Prod.mk.injEq,
    List.map_eq_nil_iff] at hnames hnames'
  rw [hnames'.1, List.prefix_nil] at hbegins
  rw [hbegins] at hnames
  exact absurd hnames.1 (by decide)

end ApiClientGen.Extraction
