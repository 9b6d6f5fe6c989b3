/-
Wider bounds change nothing.

The bounds of a scope only show in three places: in how far chains of references, schemas and
values are followed.  Within a document each of them is followed to its end already, so that
a scope with wider bounds finds the same everywhere.  This is shown for one function after
the other, down from the values and schemas to the whole interface: each is only ever asked
about nodes of the document, and there its parts find the same.
-/
import ApiClientGen.Proofs.Extraction.Properties
import ApiClientGen.Proofs.Extraction.Runs

namespace ApiClientGen.Extraction

open ApiClientGen.Canonical ApiClientGen.Document ApiClientGen.Reference ApiClientGen.Spec Extract

namespace Scope

/-- The scope with wider bounds for the levels of schemas and values. -/
def widened (s : Scope) (more : Bounds) : Scope :=
  { s with levels := s.levels + more.levels, depth := s.depth + more.depth }

/-- A scope that stays within a document and whose bounds are wide enough for it. -/
structure Wide (s : Scope) (document : Value) : Prop extends s.Within document where
  levels : mappingCount document < s.levels
  depth : valueCount document < s.depth

/-- Looking at a value goes by what is behind nodes only. -/
theorem wholeWithin_widened (s : Scope) (more : Bounds) (levels : Nat) :
    (s.widened more).wholeWithin levels = s.wholeWithin levels := by
  induction levels with
  | zero => rfl
  | succ levels ih =>
      funext n
      unfold wholeWithin
      rw [ih]
      rfl

theorem propertiesWithin_widened (s : Scope) (more : Bounds) (levels : Nat) :
    (s.widened more).propertiesWithin levels = s.propertiesWithin levels := by
  induction levels with
  | zero => rfl
  | succ levels ih =>
      funext n
      unfold propertiesWithin
      rw [ih]
      rfl

variable {s : Scope} {document : Value} (hs : s.Wide document) (more : Bounds)
  {f g : Option Node → String → Extract TypeRef}

include hs

omit more in
/-- Before anything is looked at, fewer mappings remain than there are levels. -/
theorem Wide.remaining_lt : remaining (mappingPlaces document) [] < s.levels :=
  Nat.lt_of_le_of_lt (remaining_le_length _ _) (length_mappingPlaces document ▸ hs.levels)

/-! ### Values and properties -/

theorem whole_widened {n : Node} (hn : Located document n) :
    (s.widened more).whole n = s.whole n := by
  show (s.widened more).wholeWithin (s.depth + more.depth) n = s.wholeWithin s.depth n
  rw [wholeWithin_widened]
  exact wholeWithin_enough hs.toWithin hs.depth more.depth hn

theorem shown_widened {n : Node} (hn : Located document n) :
    (s.widened more).shown n = s.shown n := by
  rw [shown, shown, whole_widened hs more hn]

theorem listedValue_widened {n : Node} (hn : Located document n) :
    (s.widened more).listedValue n = s.listedValue n := by
  rw [listedValue, listedValue, whole_widened hs more hn]

theorem properties_widened {n : Node} (hn : Located document n) :
    (s.widened more).properties n = s.properties n := by
  show (((s.widened more).propertiesWithin (s.levels + more.levels) n).run.run []).1
    = ((s.propertiesWithin s.levels n).run.run []).1
  rw [propertiesWithin_widened, propertiesWithin_enough hs.toWithin hn hs.remaining_lt]

theorem enumeration_widened (name : String) {fields : Fields Node}
    (hfields : LocatedFields document fields) :
    (s.widened more).enumeration name fields = s.enumeration name fields := by
  unfold enumeration
  refine except_bind_congr fun items hitems => ?_
  have hlocated := hs.itemsOf (hfields.get? "enum") hitems
  have hvalues : (items.filter fun n => !isNothing (some n)).mapM (s.widened more).listedValue
      = (items.filter fun n => !isNothing (some n)).mapM s.listedValue :=
    mapM_congr fun n hn => listedValue_widened hs more (hlocated n (List.mem_of_mem_filter hn))
  rw [hvalues]
  rfl

/-! ### Records -/

theorem recordField_widened (model name : String) {schema : Node} (required : List String)
    (hschema : Located document schema)
    (hfg : ∀ hint, f (some schema) hint = g (some schema) hint) :
    recordField f (s.widened more) model name schema required
      = recordField g s model name schema required := by
  unfold recordField
  refine lift_bind_congr fun fields hfields => ?_
  have hlocated := hs.fieldsOf (locatedOption_some hschema) hfields
  rw [hfg]
  refine bind_congr fun type => lift_bind_congr fun description _ => ?_
  rfl

theorem record_widened (name : String) {schema : Node} (fields : Fields Node)
    (hschema : Located document schema)
    (hfg : ∀ part hint, LocatedOption document part → f part hint = g part hint) :
    record f (s.widened more) name schema fields = record g s name schema fields := by
  unfold record
  rw [properties_widened hs more hschema]
  refine lift_bind_congr fun found hfound => ?_
  have hlocated := hs.properties hschema hfound
  have hfields : (found.schemas.mapM fun e =>
        recordField f (s.widened more) name e.1 e.2 found.required)
      = found.schemas.mapM fun e => recordField g s name e.1 e.2 found.required :=
    mapM_congr fun e he => recordField_widened hs more name e.1 found.required (hlocated e he)
      fun hint => hfg _ _ (locatedOption_some (hlocated e he))
  rw [hfields]
  rfl

/-! ### Types -/

omit hs in
theorem namedTypeOf_widened {fields : Fields Node} (hint : String) (nullable : Bool)
    (hfields : LocatedFields document fields)
    (hfg : ∀ part hint, LocatedOption document part → f part hint = g part hint) :
    namedTypeOf f (s.widened more) fields hint nullable = namedTypeOf g s fields hint nullable := by
  unfold namedTypeOf
  refine lift_bind_congr fun ⟨name, hasNull⟩ _ => ?_
  dsimp only
  rw [hfg _ _ (hfields.get? "items"), hfg _ _ (hfields.get? "additionalProperties")]
  rfl

theorem ownTypeOf_widened {schema target : Node} (hint : String) (nullable : Bool)
    (hschema : Located document schema) (htarget : Located document target)
    (hfg : ∀ part hint, LocatedOption document part → f part hint = g part hint) :
    ownTypeOf f (s.widened more) schema target hint nullable
      = ownTypeOf g s schema target hint nullable := by
  have hrecord : (fun name => record f (s.widened more) name schema target.fields)
      = fun name => record g s name schema target.fields :=
    funext fun name => record_widened hs more name target.fields hschema hfg
  unfold ownTypeOf
  rw [hrecord, namedTypeOf_widened (s := s) more hint nullable (fun e he => htarget.field he) hfg]
  rfl

theorem typeOfMapping_widened {schema target : Node} (hint : String)
    (hschema : Located document schema) (htarget : Located document target)
    (hfg : ∀ part hint, LocatedOption document part → f part hint = g part hint) :
    typeOfMapping f (s.widened more) schema target hint = typeOfMapping g s schema target hint := by
  have hfields : LocatedFields document target.fields := fun e he => htarget.field he
  have henumeration : (fun name => liftM ((s.widened more).enumeration name target.fields) :
        String → Extract Schema) = fun name => liftM (s.enumeration name target.fields) :=
    funext fun name => by rw [enumeration_widened hs more name hfields]
  unfold typeOfMapping
  refine lift_bind_congr fun isText _ => ?_
  split
  · rw [henumeration]
  · refine lift_bind_congr fun parts hparts => ?_
    have hhead := (hs.itemsOf (hfields.get? "allOf") hparts).head?
    rw [ownTypeOf_widened hs more hint _ hschema htarget hfg, hfg _ _ hhead]
    rfl

/-- A call computes the type of a mapping that is not open. -/
def Computes (s : Scope) (c : Call) (target : Node) : Prop :=
  ∃ schema, c.schema = some schema ∧ s.modelOf? schema = .ok none ∧ s.follow schema = .ok target
    ∧ target.value.isMapping = true ∧ target.place ∉ c.opened

/-- A call only depends on the calls inside of the mapping whose type it computes. -/
theorem typeStep_widened {f g : Call → Extract TypeRef} {c : Call}
    (hc : LocatedOption document c.schema)
    (hfg : ∀ target, s.Computes c target → ∀ part hint, LocatedOption document part →
      f ⟨target.place :: c.opened, part, hint⟩ = g ⟨target.place :: c.opened, part, hint⟩) :
    (s.widened more).typeStep f c = s.typeStep g c := by
  unfold typeStep
  cases hschema : c.schema with
  | none => rfl
  | some schema =>
      dsimp only
      refine lift_bind_congr fun model hmodel => ?_
      cases model with
      | some model => rfl
      | none =>
          refine lift_bind_congr fun target htarget => ?_
          split
          · rfl
          · rename_i hopen
            simp only [Bool.or_eq_true, Bool.not_eq_true', not_or, List.contains_iff_mem] at hopen
            have hlocated := hc schema hschema
            refine typeOfMapping_widened hs more c.hint hlocated (hs.follow hlocated htarget) ?_
            exact hfg target ⟨schema, hschema, hmodel, htarget, by simpa using hopen.1, hopen.2⟩

/-- **More levels than there are mappings in the document find the same type.** -/
theorem typeWithin_widened {levels : Nat} {c : Call} (hc : LocatedOption document c.schema)
    (h : remaining (mappingPlaces document) c.opened < levels) (extra : Nat) :
    (s.widened more).typeWithin (levels + extra) c = s.typeWithin levels c := by
  induction levels generalizing c with
  | zero => exact absurd h (Nat.not_lt_zero _)
  | succ levels ih =>
      rw [Nat.succ_add]
      refine typeStep_widened hs more hc fun target hcomputes part hint hpart => ih hpart ?_
      obtain ⟨schema, hschema, -, htarget, hmapping, hopen⟩ := hcomputes
      have hplace := (hs.follow (hc schema hschema) htarget).place_mem hmapping
      -- The mapping that is open now was not open before, so that fewer of them remain.
      exact Nat.lt_of_lt_of_le (remaining_cons_lt hplace hopen) (Nat.le_of_lt_succ h)

theorem typeOf_widened {schema : Option Node} (hint : String)
    (hschema : LocatedOption document schema) :
    (s.widened more).typeOf schema hint = s.typeOf schema hint :=
  typeWithin_widened hs more (c := { schema, hint }) hschema hs.remaining_lt more.levels

/-! ### Schemas of the whole document -/

theorem component_widened (name : String) {schema : Node} (hschema : Located document schema) :
    (s.widened more).component name schema = s.component name schema := by
  have htype := typeOf_widened hs more (name ++ "Item") (locatedOption_some hschema)
  unfold component
  refine lift_bind_congr fun model _ => ?_
  cases model with
  | some model => rfl
  | none =>
      refine lift_bind_congr fun fields hfields => ?_
      have hlocated := hs.fieldsOf (locatedOption_some hschema) hfields
      rw [enumeration_widened hs more name hlocated, htype,
        record_widened hs more name fields hschema fun _ _ hpart => typeOf_widened hs more _ hpart]
      rfl

theorem components_widened {schemas : Fields Node} (hschemas : LocatedFields document schemas) :
    (s.widened more).components schemas = s.components schemas := by
  refine forM_congr fun e he => ?_
  rw [show (s.widened more).models = s.models from rfl]
  split
  · rw [component_widened hs more _ (hschemas e he)]
  · rfl

/-! ### Operations -/

theorem typeOfSomething_widened {schema : Option Node} (hint : String)
    (hschema : LocatedOption document schema) :
    (s.widened more).typeOfSomething schema hint = s.typeOfSomething schema hint := by
  unfold typeOfSomething
  rw [typeOf_widened hs more hint hschema]
  rfl

theorem parameter?_widened (hint : String) {n : Node} (hn : Located document n) :
    (s.widened more).parameter? hint n = s.parameter? hint n := by
  unfold parameter?
  refine lift_bind_congr fun fields hfields => ?_
  have hlocated := hs.fieldsOf (locatedOption_some hn) hfields
  refine lift_bind_congr fun name _ => lift_bind_congr fun place _ => ?_
  split
  · refine lift_bind_congr fun schema hschema => ?_
    rw [typeOfSomething_widened hs more _ (hs.parameterSchema hlocated hschema)]
    rfl
  · rfl

theorem parameters_widened (hint : String) {ns : List Node} (hns : LocatedList document ns) :
    (s.widened more).parameters hint ns = s.parameters hint ns := by
  unfold parameters
  rw [mapM_congr fun n hn => parameter?_widened hs more hint (hns n hn)]

theorem body?_widened (hint : String) {n : Option Node} (hn : LocatedOption document n) :
    (s.widened more).body? hint n = s.body? hint n := by
  unfold body?
  refine lift_bind_congr fun fields hfields => lift_bind_congr fun media hmedia => ?_
  have hlocated := hs.fieldsOf ((hs.fieldsOf hn hfields).get? "content") hmedia
  split
  · rfl
  · rename_i mediaType _
    refine lift_bind_congr fun content hcontent => ?_
    have hschema := (hs.fieldsOf (hlocated.get? mediaType) hcontent).get? "schema"
    dsimp only
    rw [typeOf_widened hs more _ hschema]
    rfl

theorem response?_widened (hint : String) {n : Option Node} (hn : LocatedOption document n) :
    (s.widened more).response? hint n = s.response? hint n := by
  unfold response?
  refine lift_bind_congr fun responses hresponses => lift_bind_congr fun found hfound => ?_
  cases found with
  | none => rfl
  | some schema =>
      obtain ⟨code, -, hschema⟩ := except_findSomeM?_ok hfound
      have hlocated := hs.responseSchema? (hs.fieldsOf hn hresponses) hschema
      dsimp only
      rw [typeOf_widened hs more _ hlocated]

theorem operation_widened (path method : String) {fields : Fields Node} {ofPath : List Node}
    (hfields : LocatedFields document fields) (hofPath : LocatedList document ofPath) :
    (s.widened more).operation path method fields ofPath
      = s.operation path method fields ofPath := by
  unfold operation
  refine lift_bind_congr fun identifier _ => bind_congr fun name => ?_
  refine lift_bind_congr fun summary _ => lift_bind_congr fun description _ => ?_
  refine lift_bind_congr fun tags _ => lift_bind_congr fun own hown => ?_
  have hnodes : LocatedList document (ofPath ++ own) := by
    intro n hn
    rcases List.mem_append.mp hn with hn | hn
    · exact hofPath n hn
    · exact hs.itemsOf (hfields.get? "parameters") hown n hn
  rw [parameters_widened hs more _ hnodes, body?_widened hs more _ (hfields.get? "requestBody"),
    response?_widened hs more _ (hfields.get? "responses")]

theorem methodOperation?_widened (path method : String) {fields : Fields Node} {ofPath : List Node}
    (hfields : LocatedFields document fields) (hofPath : LocatedList document ofPath) :
    (s.widened more).methodOperation? path fields ofPath method
      = s.methodOperation? path fields ofPath method := by
  unfold methodOperation?
  refine lift_bind_congr fun isMapping _ => ?_
  split
  · refine lift_bind_congr fun own hown => ?_
    rw [operation_widened hs more path method (hs.fieldsOf (hfields.get? method) hown) hofPath]
  · rfl

theorem pathOperations_widened (path : String) {item : Node} (hitem : Located document item) :
    (s.widened more).pathOperations path item = s.pathOperations path item := by
  unfold pathOperations
  refine lift_bind_congr fun fields hfields => lift_bind_congr fun ofPath hofPath => ?_
  have hlocated := hs.fieldsOf (locatedOption_some hitem) hfields
  have hparameters := hs.itemsOf (hlocated.get? "parameters") hofPath
  rw [mapM_congr fun method _ => methodOperation?_widened hs more path method hlocated hparameters]

theorem operations_widened {paths : Fields Node} (hpaths : LocatedFields document paths) :
    (s.widened more).operations paths = s.operations paths := by
  unfold operations
  rw [mapM_congr fun e he => pathOperations_widened hs more e.1 (hpaths e he)]

/-! ### The whole document -/

theorem shownOrEmpty_widened {n : Option Node} (hn : LocatedOption document n) :
    (s.widened more).shownOrEmpty n = s.shownOrEmpty n := by
  cases n with
  | none => rfl
  | some n => exact shown_widened hs more (hn n rfl)

theorem securitySchemes_widened {n : Option Node} (hn : LocatedOption document n) :
    (s.widened more).securitySchemes n = s.securitySchemes n := by
  unfold securitySchemes
  refine except_bind_congr fun schemes hschemes => mapM_congr fun e he => ?_
  have hlocated := hs.fieldsOf hn hschemes
  unfold securityScheme
  refine except_bind_congr fun fields hfields => ?_
  have htype := (hs.fieldsOf (locatedOption_some (hlocated e he)) hfields).get? "type"
  rw [shownOrEmpty_widened hs more htype]
  rfl

/-- The parts of a document lie in it. -/
structure Parts.Located (source : Value) (parts : Parts) : Prop where
  document : LocatedFields source parts.document
  info : LocatedFields source parts.info
  components : LocatedFields source parts.components
  schemas : LocatedFields source parts.schemas

omit hs in
theorem Within.parts (hs : s.Within document) {parts : Parts} (h : s.parts document = .ok parts) :
    parts.Located document := by
  have hroot : LocatedFields document (Node.root document).fields :=
    fun e he => (Reference.Located.root document).field he
  obtain ⟨info, hinfo, h⟩ := except_bind_ok.mp h
  obtain ⟨components, hcomponents, h⟩ := except_bind_ok.mp h
  obtain ⟨schemas, hschemas, h⟩ := except_bind_ok.mp h
  cases h
  have hlocated := hs.fieldsOf (hroot.get? "components") hcomponents
  exact ⟨hroot, hs.fieldsOf (hroot.get? "info") hinfo, hlocated,
    hs.fieldsOf (hlocated.get? "schemas") hschemas⟩

theorem interface_widened {parts : Parts} (hparts : parts.Located document) :
    (s.widened more).interface parts = s.interface parts := by
  unfold interface
  rw [components_widened hs more hparts.schemas]
  refine bind_congr fun _ => lift_bind_congr fun paths hpaths => ?_
  have hlocated := hs.fieldsOf (hparts.document.get? "paths") hpaths
  rw [operations_widened hs more hlocated, shownOrEmpty_widened hs more (hparts.info.get? "version"),
    securitySchemes_widened hs more (hparts.components.get? "securitySchemes")]
  rfl

end Scope

/-- The bounds that come from a document are wide enough for it. -/
theorem wide_ofLinked (d : Linked) (b : Bounds) :
    (Scope.ofLinked d ((Bounds.ofDocument d.document).widened b)).Wide d.document where
  toWithin := Scope.within_ofLinked d _
  levels := Nat.lt_add_right _ (Nat.lt_succ_self _)
  depth := Nat.lt_add_right _ (Nat.lt_succ_self _)

theorem ofLinked_widened (d : Linked) (more : Bounds) :
    Scope.ofLinked d ((Bounds.ofDocument d.document).widened more)
      = (Scope.ofLinked d ((Bounds.ofDocument d.document).widened {})).widened more := by
  have hfollow : d.followWithin (refCount d.document + 1 + more.chain)
      = d.followWithin (refCount d.document + 1) :=
    funext (Linked.followWithin_enough (Nat.lt_succ_self _) more.chain)
  unfold Scope.ofLinked Scope.widened
  simp only [Bounds.widened, Bounds.ofDocument, hfollow, Nat.add_zero]

theorem prepare_widened (more : Bounds) (d : CanonicalDocument) :
    prepare more d = (do let (s, parts) ← prepare {} d; return (s.widened more, parts)) := by
  unfold prepare
  simp only [bind_assoc, pure_bind]
  refine except_bind_congr fun linked _ => ?_
  rw [ofLinked_widened]
  rfl

/-- What a document is looked at with is wide enough for it. -/
theorem prepare_wide {more : Bounds} {d : CanonicalDocument} {linked : Linked} {s : Scope}
    {parts : Scope.Parts} (hlinked : Linked.ofFields d.fields = .ok linked)
    (h : prepare more d = .ok (s, parts)) :
    s.Wide linked.document ∧ parts.Located linked.document := by
  obtain ⟨found, hfound, h⟩ := except_bind_ok.mp h
  rw [hlinked] at hfound
  cases hfound
  obtain ⟨found, hfound, h⟩ := except_bind_ok.mp h
  cases h
  have hs := wide_ofLinked linked more
  exact ⟨⟨⟨hs.follow, hs.self⟩, hs.levels, hs.depth⟩, hs.parts hfound⟩

/-- **Wider bounds change nothing**: what an extraction comes to does not depend on them. -/
theorem run_widened (more : Bounds) (d : CanonicalDocument) : run more d = run {} d := by
  unfold run
  rw [prepare_widened]
  cases hprepare : prepare {} d with
  | error failure => rfl
  | ok found =>
      obtain ⟨s, parts⟩ := found
      obtain ⟨linked, hlinked, -⟩ := except_bind_ok.mp hprepare
      obtain ⟨hs, hparts⟩ := prepare_wide (except_mapError_ok.mp hlinked) hprepare
      show ((s.widened more).interface parts).run { models := s.models.map Prod.snd }
        = (s.interface parts).run { models := s.models.map Prod.snd }
      rw [Scope.interface_widened hs more hparts]

end ApiClientGen.Extraction
