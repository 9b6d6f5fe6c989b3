/-
References of version 2 stay intact.

In canonical form, references lead to components.  The definitions, parameters and responses
of a description become components under their own names; which parameters become request
bodies is decided where the components are made, and decided again wherever an operation
refers to a parameter.  Both times the parameter itself is asked for its place, so that the
reference leads to the section that the parameter is in.  Names without slashes, tildes and
percent signs are read from the pointer of a reference as they are.
-/
import ApiClientGen.Canonical.Upgrade
import ApiClientGen.Proofs.Canonical.FixedPoint
import ApiClientGen.Proofs.Canonical.Swagger.Conversion

namespace ApiClientGen.Canonical

open ApiClientGen.Document ApiClientGen.Reference ApiClientGen.Text

namespace Swagger

/-! ### What stands in a converted description -/

section

variable (spec : Fields Value) {key : String}

theorem notMem_keys_extensions (fields : Fields Value) (hkey : isExtension key = false) :
    key ∉ Fields.keys (extensions fields) := by
  intro hmem
  rw [isExtension_of_mem_extensions hmem] at hkey
  cases hkey

theorem get?_convert (hkey : isExtension key = false) (hdocs : key ≠ "externalDocs") :
    Fields.get? (convert spec) key = Fields.get? [
      ("info", .mapping (Fields.fieldsAt spec "info")),
      ("servers", .list (servers spec)),
      ("paths", .mapping (paths spec)),
      ("components", .mapping (components spec)),
      ("security", .list (Fields.itemsAt spec "security")),
      ("tags", .list (Fields.itemsAt spec "tags"))] key := by
  have hupdate := fun t => Fields.get?_update_of_notMem (t := t)
    (notMem_keys_extensions spec hkey)
  unfold convert
  dsimp only
  split
  · rw [Fields.get?_set_of_ne _ _ (Ne.symm hdocs), hupdate]
  · rw [hupdate]

theorem fieldsAt_convert_components : Fields.fieldsAt (convert spec) "components" = components spec := by
  rw [Fields.fieldsAt, get?_convert spec (by decide) (by decide)]
  rfl

theorem fieldsAt_convert_paths : Fields.fieldsAt (convert spec) "paths" = paths spec := by
  rw [Fields.fieldsAt, get?_convert spec (by decide) (by decide)]
  rfl

end

/-! ### The sections of the components -/

/-- The parameters of the whole description. -/
def sharedParameters (spec : Fields Value) : List (String × Fields Value) :=
  (Fields.fieldsAt spec "parameters").map fun p => (p.1, p.2.asFields)

/-- The sections of the components, empty ones among them. -/
def sections (spec : Fields Value) : List (String × Fields Value) :=
  let types (key : String) := effectiveMediaTypes (Fields.itemsAt spec key) []
  [("schemas", Fields.mapValues (mapSchema convertSchema) (Fields.fieldsAt spec "definitions")),
    ("parameters", ((sharedParameters spec).filter fun p => !isAt "body" p.2 && !isAt "formData" p.2).map
      fun p => (p.1, .mapping (convertParameter p.2))),
    ("requestBodies", (sharedParameters spec).filterMap fun p =>
      (sharedBody? (types "consumes") p.2).map fun b => (p.1, Value.mapping b)),
    ("responses", Fields.mapValues (convertResponse (types "produces"))
      (Fields.fieldsAt spec "responses")),
    ("securitySchemes", Fields.mapValues convertSecurityScheme
      (Fields.fieldsAt spec "securityDefinitions"))]

theorem components_eq_flatMap (spec : Fields Value) :
    components spec = (sections spec).flatMap fun s => mappingField s.1 s.2 := by
  simp [components, sections, sharedParameters]

/-- The sections that are there, in their order. -/
theorem keys_flatMap_mappingField_sublist (all : List (String × Fields Value)) :
    (Fields.keys (all.flatMap fun s => mappingField s.1 s.2)).Sublist (Fields.keys all) := by
  induction all with
  | nil => exact List.Sublist.refl _
  | cons s all ih =>
      rw [List.flatMap_cons, Fields.keys_append]
      exact (Fields.keys_unless_sublist _ s.1 _).append ih

/-- Sections with distinct names are read as they are, and an empty one as empty. -/
theorem fieldsAt_flatMap_mappingField {all : List (String × Fields Value)}
    (hnodup : (Fields.keys all).Nodup) {key : String} {fields : Fields Value}
    (h : (key, fields) ∈ all) :
    Fields.fieldsAt (all.flatMap fun s => mappingField s.1 s.2) key = fields := by
  induction all with
  | nil => cases h
  | cons s all ih =>
      obtain ⟨name, own⟩ := s
      obtain ⟨hfresh, hrest⟩ := List.nodup_cons.mp hnodup
      have hnone : ∀ k, k ∉ Fields.keys all →
          Fields.get? (all.flatMap fun s => mappingField s.1 s.2) k = none :=
        fun k hk => Fields.get?_eq_none fun hmem =>
          hk ((keys_flatMap_mappingField_sublist all).subset hmem)
      rw [List.flatMap_cons, Fields.fieldsAt, Fields.get?_append]
      rcases List.mem_cons.mp h with heq | hmem
      · cases heq
        rw [hnone _ hfresh]
        cases fields with
        | nil => rfl
        | cons e fields => simp [mappingField, Fields.get?, Value.asFields]
      · have hne : name ≠ key := by
          rintro rfl
          have hkey : name ∈ Fields.keys all := Fields.mem_keys_of_mem hmem
          exact hfresh hkey
        have hown : Fields.get? (mappingField name own) key = none := by
          unfold mappingField
          split
          · rfl
          · simp [Fields.get?, hne]
        rw [hown, Option.none_or]
        exact ih hrest hmem

theorem keys_sections (spec : Fields Value) : Fields.keys (sections spec)
    = ["schemas", "parameters", "requestBodies", "responses", "securitySchemes"] := rfl

theorem keys_components_sublist (spec : Fields Value) :
    (Fields.keys (components spec)).Sublist
      ["schemas", "parameters", "requestBodies", "responses", "securitySchemes"] := by
  rw [components_eq_flatMap, ← keys_sections spec]
  exact keys_flatMap_mappingField_sublist _

theorem fieldsAt_components {spec : Fields Value} {key : String} {fields : Fields Value}
    (h : (key, fields) ∈ sections spec) : Fields.fieldsAt (components spec) key = fields := by
  rw [components_eq_flatMap]
  exact fieldsAt_flatMap_mappingField (by rw [keys_sections]; decide) h

/-- What stands in the components is a section. -/
theorem eq_fieldsAt_of_mem_components {spec : Fields Value} {key : String} {v : Value}
    (h : (key, v) ∈ components spec) : v = .mapping (Fields.fieldsAt (components spec) key) := by
  have hmem := h
  rw [components_eq_flatMap] at hmem
  obtain ⟨⟨name, own⟩, hsection, hfield⟩ := List.mem_flatMap.mp hmem
  unfold mappingField at hfield
  split at hfield
  · cases hfield
  · cases List.mem_singleton.mp hfield
    rw [fieldsAt_components hsection]

section

variable (spec : Fields Value)

theorem fieldsAt_components_schemas : Fields.fieldsAt (components spec) "schemas"
    = Fields.mapValues (mapSchema convertSchema) (Fields.fieldsAt spec "definitions") :=
  fieldsAt_components (show _ ∈ sections spec by simp [sections])

theorem fieldsAt_components_parameters : Fields.fieldsAt (components spec) "parameters"
    = ((sharedParameters spec).filter fun p => !isAt "body" p.2 && !isAt "formData" p.2).map
      fun p => (p.1, .mapping (convertParameter p.2)) :=
  fieldsAt_components (show _ ∈ sections spec by simp [sections])

theorem fieldsAt_components_requestBodies : Fields.fieldsAt (components spec) "requestBodies"
    = (sharedParameters spec).filterMap fun p =>
      (sharedBody? (effectiveMediaTypes (Fields.itemsAt spec "consumes") []) p.2).map
        fun b => (p.1, Value.mapping b) :=
  fieldsAt_components (show _ ∈ sections spec by simp [sections])

theorem fieldsAt_components_responses : Fields.fieldsAt (components spec) "responses"
    = Fields.mapValues
      (convertResponse (effectiveMediaTypes (Fields.itemsAt spec "produces") []))
      (Fields.fieldsAt spec "responses") :=
  fieldsAt_components (show _ ∈ sections spec by simp [sections])

end

section

variable {spec target : Fields Value} {name : String}
  (h : (name, .mapping target) ∈ Fields.fieldsAt spec "parameters")

include h

/-- A parameter of the whole description that stays one is among the parameters. -/
theorem mem_components_parameters (hbody : isAt "body" target = false)
    (hform : isAt "formData" target = false) :
    (name, .mapping (convertParameter target))
      ∈ Fields.fieldsAt (components spec) "parameters" := by
  have hshared : (name, target) ∈ sharedParameters spec := List.mem_map.mpr ⟨_, h, rfl⟩
  rw [fieldsAt_components_parameters]
  refine List.mem_map.mpr ⟨(name, target), List.mem_filter.mpr ⟨hshared, ?_⟩, rfl⟩
  simp [hbody, hform]

/-- A parameter of the whole description that is a body is among the request bodies. -/
theorem mem_components_requestBodies (hbody : isAt "body" target = true) :
    (name, .mapping (bodyOf target (effectiveMediaTypes (Fields.itemsAt spec "consumes") [])))
      ∈ Fields.fieldsAt (components spec) "requestBodies" := by
  have hshared : (name, target) ∈ sharedParameters spec := List.mem_map.mpr ⟨_, h, rfl⟩
  rw [fieldsAt_components_requestBodies]
  exact List.mem_filterMap.mpr ⟨_, hshared, by
    simp only [sharedBody?, hbody, if_true, Option.map_some]⟩

end

/-! ### What stands in a converted operation -/

section

variable (spec item operation : Fields Value)

/-- The media types that an operation uses: its own, or those of the description. -/
def typesOf (key : String) : List String :=
  effectiveMediaTypes (Fields.itemsAt operation key) (Fields.itemsAt spec key)

theorem get?_convertOperation {key : String} (hkey : isExtension key = false)
    (hkeys : key ∉ ["tags", "summary", "description", "externalDocs", "operationId", "deprecated",
      "security"]) :
    Fields.get? (convertOperation spec (Fields.itemsAt item "parameters") operation) key
      = Fields.get? (((requestBody? (typesOf spec operation "consumes")
          (entriesOf spec item operation)).map fun b => ("requestBody", Value.mapping b)).toList
        ++ (if (((entriesOf spec item operation).filter Entry.isPlain).map fun e =>
            Value.mapping (convertParameter e.written)).isEmpty then []
          else [("parameters", .list (((entriesOf spec item operation).filter Entry.isPlain).map
            fun e => Value.mapping (convertParameter e.written)))])
        ++ [("responses", .mapping (Fields.mapValues
          (convertResponse (typesOf spec operation "produces"))
          (Fields.fieldsAt operation "responses")))]) key := by
  unfold convertOperation
  dsimp only
  rw [Fields.get?_update_of_notMem (notMem_keys_extensions operation hkey)]
  simp only [List.append_assoc]
  rw [Fields.get?_append, Fields.get?_select, if_neg hkeys, Option.none_or]
  rfl

/-- The parameters of a converted operation are those entries that are no bodies and forms. -/
theorem itemsAt_convertOperation :
    Fields.itemsAt (convertOperation spec (Fields.itemsAt item "parameters") operation) "parameters"
      = ((entriesOf spec item operation).filter Entry.isPlain).map fun e =>
        Value.mapping (convertParameter e.written) := by
  rw [Fields.itemsAt, get?_convertOperation spec item operation (by decide) (by decide)]
  generalize ((entriesOf spec item operation).filter Entry.isPlain).map (fun e =>
    Value.mapping (convertParameter e.written)) = parameters
  cases requestBody? (typesOf spec operation "consumes") (entriesOf spec item operation) <;>
    cases parameters <;> simp [Fields.get?, Value.asItems]

/-- The request body of a converted operation is the one that its entries make. -/
theorem fieldsAt_convertOperation :
    Fields.fieldsAt (convertOperation spec (Fields.itemsAt item "parameters") operation)
        "requestBody"
      = (requestBody? (typesOf spec operation "consumes") (entriesOf spec item operation)).getD [] := by
  rw [Fields.fieldsAt, get?_convertOperation spec item operation (by decide) (by decide)]
  generalize ((entriesOf spec item operation).filter Entry.isPlain).map (fun e =>
    Value.mapping (convertParameter e.written)) = parameters
  cases requestBody? (typesOf spec operation "consumes") (entriesOf spec item operation) <;>
    cases parameters <;> simp [Fields.get?, Value.asFields]

end

/-- A converted parameter is a reference only if it was one. -/
theorem textAt?_convertParameter (fields : Fields Value) :
    Fields.textAt? (convertParameter fields) "$ref" = Fields.textAt? fields "$ref" := by
  unfold convertParameter
  split
  · rename_i ref href
    simp [Fields.textAt?, Fields.get?, href]
  · rename_i hnone
    have hstyle : "$ref" ∉ Fields.keys (styleFields fields) := by
      unfold styleFields
      split
      · split <;> simp [Fields.keys]
      · simp [Fields.keys]
    rw [Fields.textAt?, Fields.get?_update_of_notMem (notMem_keys_extensions fields (by decide)),
      Fields.get?_update_of_notMem hstyle, Fields.get?_set_of_ne _ _ (by decide),
      Fields.get?_select, if_neg (by decide), Fields.textAt?, hnone]

theorem textAt?_bodyOf (parameter : Fields Value) (consumes : List String) :
    Fields.textAt? (bodyOf parameter consumes) "$ref" = none := by
  unfold bodyOf
  dsimp only
  rw [Fields.textAt?, Fields.get?_update_of_notMem (notMem_keys_extensions parameter (by decide))]
  cases Fields.get? parameter "description" <;>
    split <;> simp [Fields.setIfSome, Fields.get?_set, Fields.get?]

theorem textAt?_formOf (form : List (Fields Value)) (consumes : List String) :
    Fields.textAt? (formOf form consumes) "$ref" = none := by
  unfold formOf
  dsimp only
  rw [Fields.textAt?, Fields.get?_append]
  generalize ((namedFields form).filter fun p => isRequired p.2).map (fun p => Value.string p.1)
    = required
  cases required <;> simp [Fields.get?]

/-- A request body is a reference only if it is made for an entry that is one. -/
theorem exists_of_textAt?_requestBody {consumes : List String} {entries : List Entry} {ref : String}
    (h : Fields.textAt? ((requestBody? consumes entries).getD []) "$ref" = some ref) :
    ∃ e ∈ entries, e.isAt "body" = true
      ∧ ∃ source, Fields.textAt? e.written "$ref" = some source ∧ ref = bodyRef source := by
  unfold requestBody? at h
  dsimp only at h
  split at h
  · cases hlast : (entries.filter (Entry.isAt "body")).getLast? with
    | none =>
        rw [hlast] at h
        cases h
    | some e =>
        rw [hlast, Option.map_some, Option.getD_some] at h
        obtain ⟨hmem, hat⟩ := List.mem_filter.mp (List.mem_of_getLast? hlast)
        cases href : Fields.textAt? e.written "$ref" with
        | none =>
            simp only [bodyOfEntry, href] at h
            rw [textAt?_bodyOf] at h
            cases h
        | some source =>
            rw [bodyOfEntry_of_ref href] at h
            cases h
            exact ⟨e, hmem, hat, source, href, rfl⟩
  · rw [Option.getD_some, textAt?_formOf] at h
    cases h

end Swagger

/-! ### Where references lead -/

open Swagger

/-- **A reference that leads to an entry** of a section of the components. -/
structure LeadsTo (canonical : Fields Value) (ref part name : String) : Prop where
  /-- Its pointer is read as the way to the entry. -/
  pointer : ∃ pointer, ref = "#" ++ pointer ∧ pointerParts pointer = ["components", part, name]
  /-- The entry is there. -/
  entry : ∃ v,
    Fields.get? (Fields.fieldsAt (Fields.fieldsAt canonical "components") part) name = some v

/-- The names of definitions, parameters and responses are plain. -/
def HasPlainNames (content : Fields Value) : Prop :=
  ∀ part ∈ ["definitions", "parameters", "responses"],
    ∀ name ∈ Fields.keys (Fields.fieldsAt content part), IsPlainName name

instance (content : Fields Value) : Decidable (HasPlainNames content) :=
  inferInstanceAs (Decidable (∀ part ∈ ["definitions", "parameters", "responses"],
    ∀ name ∈ Fields.keys (Fields.fieldsAt content part), IsPlainName name))

/--
A reference in an operation that was made of one of the parameters written for it; if that one
leads to a parameter of the whole description, the new one leads to a component.
-/
def CarriedFor (content canonical item operation : Fields Value) (change : String → String)
    (part ref : String) : Prop :=
  ∃ written source,
    .mapping written ∈ Fields.itemsAt item "parameters" ++ Fields.itemsAt operation "parameters"
      ∧ Fields.textAt? written "$ref" = some source ∧ ref = change source
      ∧ ∀ name, source = "#/parameters/" ++ name →
        name ∈ Fields.keys (Fields.fieldsAt content "parameters") ∧ LeadsTo canonical ref part name

/-- **References that stay intact** when a description of version 2 comes into canonical form. -/
structure RefsIntact (content canonical : Fields Value) : Prop where
  /-- No reference begins as in version 2. -/
  new : ∀ ref ∈ refTextsOfFields canonical,
    ∀ start ∈ ["#/definitions/", "#/parameters/", "#/responses/"], beginsWith ref start = false
  /-- Every reference is one of the description in canonical form, or made for a body. -/
  kept : ∀ ref ∈ refTextsOfFields canonical,
    (∃ source ∈ refTextsOfFields content, ref = canonicalRef source)
      ∨ ∃ path method item operation, IsOperation content path method item operation
        ∧ CarriedFor content canonical item operation bodyRef "requestBodies" ref
  /-- References to definitions become references to the schemas that these have become. -/
  definitions : ∀ name ∈ Fields.keys (Fields.fieldsAt content "definitions"),
    LeadsTo canonical (canonicalRef ("#/definitions/" ++ name)) "schemas" name
  /-- References to responses lead to responses. -/
  responses : ∀ name ∈ Fields.keys (Fields.fieldsAt content "responses"),
    LeadsTo canonical (canonicalRef ("#/responses/" ++ name)) "responses" name
  /-- The parameters and the body of an operation that are references are made of parameters. -/
  operations : ∀ path method item' operation',
    (path, .mapping item') ∈ Fields.fieldsAt canonical "paths" → method ∈ methods →
      Fields.get? item' method = some (.mapping operation') →
        ∃ item operation, IsOperation content path method item operation
          ∧ (∀ v ∈ Fields.itemsAt operation' "parameters",
            ∀ ref, Fields.textAt? v.asFields "$ref" = some ref →
              CarriedFor content canonical item operation canonicalRef "parameters" ref)
          ∧ ∀ ref, Fields.textAt? (Fields.fieldsAt operation' "requestBody") "$ref" = some ref →
            CarriedFor content canonical item operation bodyRef "requestBodies" ref

section

variable {content : Fields Value}

theorem components_upgrade (content : Fields Value) :
    (upgrade ⟨.swagger2, content⟩).components = canonicalRefFields (components content) := by
  show Fields.fieldsAt (canonicalRefFields (convert content)) "components" = _
  rw [fieldsAt_canonicalRefFields, fieldsAt_convert_components]

theorem paths_upgrade (content : Fields Value) :
    (upgrade ⟨.swagger2, content⟩).paths = canonicalRefFields (paths content) := by
  show Fields.fieldsAt (canonicalRefFields (convert content)) "paths" = _
  rw [fieldsAt_canonicalRefFields, fieldsAt_convert_paths]

theorem ofFields_fields_upgrade (content : Fields Value) :
    CanonicalDocument.ofFields (upgrade ⟨.swagger2, content⟩).fields
      = upgrade ⟨.swagger2, content⟩ :=
  CanonicalDocument.ofFields_fields (CanonicalDocument.isSorted_ofFields _)

theorem fieldsAt_upgrade_components (content : Fields Value) :
    Fields.fieldsAt (upgrade ⟨.swagger2, content⟩).fields "components"
      = canonicalRefFields (components content) :=
  (congrArg CanonicalDocument.components (ofFields_fields_upgrade content)).trans
    (components_upgrade content)

theorem fieldsAt_upgrade_paths (content : Fields Value) :
    Fields.fieldsAt (upgrade ⟨.swagger2, content⟩).fields "paths"
      = canonicalRefFields (paths content) :=
  (congrArg CanonicalDocument.paths (ofFields_fields_upgrade content)).trans (paths_upgrade content)

/-- A reference through the components to a plain name leads there if the name is one of a section. -/
theorem leadsTo_of_mem_keys (part : String) {name : String} (hpart : IsPlainName part)
    (hname : IsPlainName name)
    (h : name ∈ Fields.keys (Fields.fieldsAt (components content) part)) :
    LeadsTo (upgrade ⟨.swagger2, content⟩).fields ("#/components/" ++ part ++ "/" ++ name) part
      name where
  pointer := by
    refine ⟨"/" ++ "components" ++ "/" ++ part ++ "/" ++ name, ?_,
      pointerParts_three (by decide) (by decide) hpart hname⟩
    apply String.toList_injective
    simp
  entry := by
    obtain ⟨v, hv⟩ := Fields.exists_get?_of_mem_keys h
    rw [fieldsAt_upgrade_components, fieldsAt_canonicalRefFields, get?_canonicalRefFields, hv]
    exact ⟨_, rfl⟩

/-! ### References made for parameters -/

/-- An entry was written as a mapping; if that is a reference, it leads to what the entry stands for. -/
theorem ofValue?_eq_some {shared : Fields Value} {v : Value} {e : Entry}
    (h : Entry.ofValue? shared v = some e) :
    v = .mapping e.written
      ∧ ∀ name, Fields.textAt? e.written "$ref" = some ("#/parameters/" ++ name) →
        Fields.get? shared name = some (.mapping e.resolved) := by
  cases v with
  | scalar s => cases h
  | list vs => cases h
  | mapping written =>
      have hread : ∀ name, Fields.textAt? written "$ref" = some ("#/parameters/" ++ name) →
          (Fields.textAt? written "$ref").bind (textAfter? parameterRefStart) = some name := by
        intro name href
        rw [href]
        exact textAfter?_eq_some.mpr rfl
      rw [Entry.ofValue?] at h
      split at h
      · rename_i found hfound
        split at h
        · rename_i target htarget
          cases h
          refine ⟨rfl, fun name href => ?_⟩
          have heq := (hread name href).symm.trans hfound
          cases heq
          exact htarget
        · cases h
      · rename_i hnone
        cases h
        refine ⟨rfl, fun name href => ?_⟩
        rw [hread name href] at hnone
        cases hnone

variable {item operation : Fields Value}

/-- What an entry of an operation that is a reference was written as, and what it leads to. -/
theorem written_of_mem_entriesOf {e : Entry} (he : e ∈ entriesOf content item operation) :
    .mapping e.written ∈ Fields.itemsAt item "parameters" ++ Fields.itemsAt operation "parameters"
      ∧ ∀ name, Fields.textAt? e.written "$ref" = some ("#/parameters/" ++ name) →
        (name, .mapping e.resolved) ∈ Fields.fieldsAt content "parameters" := by
  obtain ⟨v, hv, hof⟩ := exists_of_mem_effectiveEntries he
  obtain ⟨rfl, hlead⟩ := ofValue?_eq_some hof
  exact ⟨hv, fun name href => Fields.mem_of_get? (hlead name href)⟩

theorem bodyRef_eq_append (source : String) :
    bodyRef source = "#/components/" ++ "requestBodies" ++ "/"
      ++ String.ofList (source.toList.drop parameterRefStart.length) := by
  unfold bodyRef
  apply String.toList_injective
  simp

theorem bodyRef_append (name : String) :
    bodyRef ("#/parameters/" ++ name) = "#/components/" ++ "requestBodies" ++ "/" ++ name := by
  have hdrop : ("#/parameters/" ++ name).toList.drop parameterRefStart.length = name.toList := by
    have hlength : parameterRefStart.length = "#/parameters/".toList.length := rfl
    rw [hlength, String.toList_append, List.drop_left]
  rw [bodyRef_eq_append, hdrop, String.ofList_toList]

theorem canonicalRef_definitions (name : String) :
    canonicalRef ("#/definitions/" ++ name) = "#/components/" ++ "schemas" ++ "/" ++ name :=
  canonicalRef_append (show ("#/definitions/", "#/components/schemas/") ∈ refStarts by decide) name

theorem canonicalRef_parameters (name : String) :
    canonicalRef ("#/parameters/" ++ name) = "#/components/" ++ "parameters" ++ "/" ++ name :=
  canonicalRef_append (show ("#/parameters/", "#/components/parameters/") ∈ refStarts by decide) name

theorem canonicalRef_responses (name : String) :
    canonicalRef ("#/responses/" ++ name) = "#/components/" ++ "responses" ++ "/" ++ name :=
  canonicalRef_append (show ("#/responses/", "#/components/responses/") ∈ refStarts by decide) name

/-- References to bodies are in canonical form. -/
theorem canonicalRef_bodyRef (source : String) : canonicalRef (bodyRef source) = bodyRef source := by
  refine canonicalRef_eq_self fun start hstart => ?_
  simp only [refStarts, List.mem_cons, List.not_mem_nil, or_false] at hstart
  unfold bodyRef
  rcases hstart with rfl | rfl | rfl <;> simp [textAfter?, after?]

/-- A reference of an operation is carried along if each parameter it may lead to has a component. -/
theorem carriedFor_of_mem_entriesOf (hnames : HasPlainNames content) {e : Entry}
    (he : e ∈ entriesOf content item operation) {source : String}
    (href : Fields.textAt? e.written "$ref" = some source) {change : String → String} {part : String}
    (hpart : IsPlainName part)
    (hchange : ∀ name, change ("#/parameters/" ++ name) = "#/components/" ++ part ++ "/" ++ name)
    (hcomponent : ∀ name, (name, .mapping e.resolved) ∈ Fields.fieldsAt content "parameters" →
      name ∈ Fields.keys (Fields.fieldsAt (components content) part)) :
    CarriedFor content (upgrade ⟨.swagger2, content⟩).fields item operation change part
      (change source) := by
  obtain ⟨hwritten, hlead⟩ := written_of_mem_entriesOf he
  refine ⟨e.written, source, hwritten, href, rfl, ?_⟩
  rintro name rfl
  have hshared := hlead name href
  have hkey : name ∈ Fields.keys (Fields.fieldsAt content "parameters") :=
    Fields.mem_keys_of_mem hshared
  refine ⟨hkey, ?_⟩
  rw [hchange]
  exact leadsTo_of_mem_keys part hpart (hnames "parameters" (by decide) name hkey)
    (hcomponent name hshared)

theorem carriedFor_of_isPlain (hnames : HasPlainNames content) {e : Entry}
    (he : e ∈ entriesOf content item operation) (hplain : e.isPlain = true) {source : String}
    (href : Fields.textAt? e.written "$ref" = some source) :
    CarriedFor content (upgrade ⟨.swagger2, content⟩).fields item operation canonicalRef "parameters"
      (canonicalRef source) := by
  simp only [Entry.isPlain, Bool.and_eq_true, Bool.not_eq_true'] at hplain
  refine carriedFor_of_mem_entriesOf hnames he href (by decide) canonicalRef_parameters ?_
  intro name hshared
  exact Fields.mem_keys_of_mem (mem_components_parameters hshared hplain.1 hplain.2)

theorem carriedFor_of_isAt_body (hnames : HasPlainNames content) {e : Entry}
    (he : e ∈ entriesOf content item operation) (hbody : e.isAt "body" = true) {source : String}
    (href : Fields.textAt? e.written "$ref" = some source) :
    CarriedFor content (upgrade ⟨.swagger2, content⟩).fields item operation bodyRef "requestBodies"
      (bodyRef source) := by
  refine carriedFor_of_mem_entriesOf hnames he href (by decide) bodyRef_append ?_
  intro name hshared
  exact Fields.mem_keys_of_mem (mem_components_requestBodies hshared hbody)

/-! ### All references of the canonical form -/

/-- The references of the canonical form are those of the converted description, rewritten. -/
theorem exists_source_of_mem {ref : String}
    (h : ref ∈ refTextsOfFields (upgrade ⟨.swagger2, content⟩).fields) :
    ∃ source ∈ refTextsOfFields (convert content), canonicalRef source = ref := by
  have hconverted : RefsIn (fun ref => ∃ source ∈ refTextsOfFields (convert content),
      canonicalRef source = ref) (canonicalRefFields (convert content)) := by
    intro ref href
    rw [refTextsOfFields_canonicalRefFields] at href
    exact List.mem_map.mp href
  exact refsIn_ofFields hconverted ref h

/-- An operation of the canonical form is a converted one with its references rewritten. -/
theorem exists_operation_of_mem_paths {path method : String} {item' operation' : Fields Value}
    (hpath : (path, .mapping item')
      ∈ Fields.fieldsAt (upgrade ⟨.swagger2, content⟩).fields "paths")
    (hmethod : method ∈ methods)
    (hoperation : Fields.get? item' method = some (.mapping operation')) :
    ∃ item operation, IsOperation content path method item operation
      ∧ operation' = canonicalRefFields
        (convertOperation content (Fields.itemsAt item "parameters") operation) := by
  rw [fieldsAt_upgrade_paths, canonicalRefFields_eq_map] at hpath
  obtain ⟨⟨p, v⟩, hconverted, heq⟩ := List.mem_map.mp hpath
  obtain ⟨⟨q, w⟩, hsource, hitem⟩ := List.mem_filterMap.mp hconverted
  split at hitem
  · rename_i item hw
    cases hitem
    subst hw
    cases heq
    rw [get?_canonicalRefFields] at hoperation
    obtain ⟨v, hget, hv⟩ := Option.map_eq_some_iff.mp hoperation
    rcases Fields.mem_update (Fields.mem_of_get? hget) with hmem | hext
    · obtain ⟨m, -, heq⟩ := List.mem_filterMap.mp hmem
      split at heq
      · rename_i operation hfound
        cases heq
        cases hv
        exact ⟨item, operation, ⟨hsource, hmethod, hfound⟩, rfl⟩
      · cases heq
    · have hno : ∀ m ∈ methods, isExtension m = false := by decide
      have hkey := hno method hmethod
      rw [isExtension_of_mem_extensions (Fields.mem_keys_of_mem hext)] at hkey
      cases hkey
  · cases hitem

theorem refsIntact_upgrade (hnames : HasPlainNames content) :
    RefsIntact content (upgrade ⟨.swagger2, content⟩).fields where
  new ref href start hstart := by
    obtain ⟨source, -, rfl⟩ := exists_source_of_mem href
    have hstarts : ["#/definitions/", "#/parameters/", "#/responses/"] = refStarts.map Prod.fst := rfl
    rw [hstarts] at hstart
    obtain ⟨pair, hpair, rfl⟩ := List.mem_map.mp hstart
    rw [Bool.eq_false_iff]
    intro hbegins
    obtain ⟨rest, hrest⟩ := beginsWith_iff.mp hbegins
    have hnone := textAfter?_canonicalRef hpair source
    rw [textAfter?_eq_some.mpr hrest] at hnone
    cases hnone
  kept ref href := by
    have hsources : RefsIn (fun source => source ∈ refTextsOfFields content
        ∨ ∃ path method item operation, IsOperation content path method item operation
          ∧ CarriedFor content (upgrade ⟨.swagger2, content⟩).fields item operation bodyRef
            "requestBodies" source) (convert content) :=
      refsIn_convert (fun _ h => Or.inl h) fun path method item operation hoperation e he hbody
        source hsource => Or.inr ⟨path, method, item, operation, hoperation,
          carriedFor_of_isAt_body hnames he hbody hsource⟩
    obtain ⟨source, hsource, rfl⟩ := exists_source_of_mem href
    rcases hsources source hsource with hown | ⟨path, method, item, operation, hoperation, hmade⟩
    · exact Or.inl ⟨source, hown, rfl⟩
    · obtain ⟨-, original, -, -, rfl, -⟩ := id hmade
      rw [canonicalRef_bodyRef]
      exact Or.inr ⟨path, method, item, operation, hoperation, hmade⟩
  definitions name hname := by
    rw [canonicalRef_definitions]
    refine leadsTo_of_mem_keys "schemas" (by decide)
      (hnames "definitions" (by decide) name hname) ?_
    rw [fieldsAt_components_schemas, Fields.keys_mapValues]
    exact hname
  responses name hname := by
    rw [canonicalRef_responses]
    refine leadsTo_of_mem_keys "responses" (by decide)
      (hnames "responses" (by decide) name hname) ?_
    rw [fieldsAt_components_responses, Fields.keys_mapValues]
    exact hname
  operations path method item' operation' hpath hmethod hget := by
    obtain ⟨item, operation, hoperation, rfl⟩ := exists_operation_of_mem_paths hpath hmethod hget
    refine ⟨item, operation, hoperation, fun v hv ref href => ?_, fun ref href => ?_⟩
    · rw [itemsAt_canonicalRefFields, itemsAt_convertOperation, canonicalRefItems_eq_map] at hv
      obtain ⟨w, hw, rfl⟩ := List.mem_map.mp hv
      obtain ⟨e, he, rfl⟩ := List.mem_map.mp hw
      obtain ⟨hmem, hplain⟩ := List.mem_filter.mp he
      rw [canonicalRefs, Value.asFields, textAt?_canonicalRefFields, textAt?_convertParameter] at href
      obtain ⟨source, hsource, rfl⟩ := Option.map_eq_some_iff.mp href
      exact carriedFor_of_isPlain hnames hmem hplain hsource
    · rw [fieldsAt_canonicalRefFields, fieldsAt_convertOperation, textAt?_canonicalRefFields] at href
      obtain ⟨made, hmade, rfl⟩ := Option.map_eq_some_iff.mp href
      obtain ⟨e, he, hbody, source, hsource, rfl⟩ := exists_of_textAt?_requestBody hmade
      rw [canonicalRef_bodyRef]
      exact carriedFor_of_isAt_body hnames he hbody hsource

end

/--
**The references of a description of version 2 stay intact.**  If the names of definitions,
parameters and responses are plain, no reference of the canonical form begins as in version 2,
references to definitions and responses lead to components, and so do those that operations have
for parameters of the whole description; rewriting references changes their beginnings only.
-/
theorem refsIntact_upgrade_swagger2 (content : Fields Value) (hnames : HasPlainNames content) :
    RefsIntact content (upgrade ⟨.swagger2, content⟩).fields ∧ RewritesRefs canonicalRefs :=
  ⟨refsIntact_upgrade hnames, rewritesRefs_canonicalRefs⟩

/-- A description with a shared parameter, a shared body and a shared response. -/
def sharingContent : Fields Value :=
  [("swagger", .string "2.0"),
    ("definitions", .mapping [("Pet Kind", .mapping [("type", .string "string")])]),
    ("parameters", .mapping
      [("Limit", .mapping [("name", .string "limit"), ("in", .string "query")]),
        ("Kind", .mapping
          [("name", .string "kind"), ("in", .string "body"),
            ("schema", .mapping [("$ref", .string "#/definitions/Pet Kind")])])]),
    ("responses", .mapping [("Gone", .mapping [("description", .string "gone")])]),
    ("paths", .mapping
      [("/pets", .mapping
        [("parameters", .list [.mapping [("$ref", .string "#/parameters/Limit")]]),
          ("post", .mapping
            [("parameters", .list [.mapping [("$ref", .string "#/parameters/Kind")]]),
              ("responses", .mapping
                [("410", .mapping [("$ref", .string "#/responses/Gone")])])])])])]

theorem refsIntact_sharingContent :
    HasPlainNames sharingContent
      ∧ refTextsOfFields (upgrade ⟨.swagger2, sharingContent⟩).fields
        = ["#/components/requestBodies/Kind", "#/components/parameters/Limit",
          "#/components/responses/Gone", "#/components/schemas/Pet Kind"]
      ∧ RefsIntact sharingContent (upgrade ⟨.swagger2, sharingContent⟩).fields
      ∧ RewritesRefs canonicalRefs := by
  have hnames : HasPlainNames sharingContent := by decide
  exact ⟨hnames, by decide +kernel, refsIntact_upgrade_swagger2 sharingContent hnames⟩

end ApiClientGen.Canonical
