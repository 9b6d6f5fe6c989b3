/-
References in what descriptions of version 2 are converted to.

Converting a description only moves its references: schemas, parameters, forms, responses and
security schemes carry those that were in the places they are made of, and no others.  The one
exception is the request body that an operation makes for a body parameter that is a
reference; its reference is made of the name of the parameter.
-/
import ApiClientGen.Canonical.Swagger.Description
import ApiClientGen.Proofs.Canonical.References
import ApiClientGen.Proofs.Document.Latest

namespace ApiClientGen.Canonical

open ApiClientGen.Document

variable {P : String → Prop} {fields : Fields Value} {key : String}

/-! ### Changes of schemas -/

section

variable {change : Fields Value → Fields Value}

mutual

/-- **A change that adds no references to a schema adds none to the schemas inside.** -/
theorem refs_mapSchema (hchange : ∀ t, RefsIn P t → RefsIn P (change t)) :
    (v : Value) → Refs P v → Refs P (mapSchema change v)
  | .scalar _, h => h
  | .list _, h => h
  | .mapping fields, h => hchange _ (refsIn_mapInner hchange fields h)

theorem refsIn_mapInner (hchange : ∀ t, RefsIn P t → RefsIn P (change t)) :
    (fields : List (String × Value)) → RefsIn P fields → RefsIn P (mapInner change fields)
  | [], h => h
  | (key, v) :: rest, h => by
      obtain ⟨hv, hrest⟩ := refsIn_cons.mp h
      exact .cons key (refsAt_mapUnder hchange key v hv) (refsIn_mapInner hchange rest hrest)

theorem refsAt_mapUnder (hchange : ∀ t, RefsIn P t → RefsIn P (change t)) (key : String) :
    (v : Value) → RefsAt P key v → RefsAt P key (mapUnder change key v)
  | .scalar _, h => h
  | .list vs, h => by
      rw [mapUnder]
      split
      · exact refs_list.mpr (refs_mapSchemas hchange vs (refs_list.mp h))
      · exact h
  | .mapping fields, h => by
      rw [mapUnder]
      split
      · exact refsIn_mapProperties hchange fields h
      · split
        · exact hchange _ (refsIn_mapInner hchange fields h)
        · exact h

theorem refsIn_mapProperties (hchange : ∀ t, RefsIn P t → RefsIn P (change t)) :
    (fields : List (String × Value)) → RefsIn P fields → RefsIn P (mapProperties change fields)
  | [], h => h
  | (name, v) :: rest, h => by
      obtain ⟨hv, hrest⟩ := refsIn_cons.mp h
      refine .cons name ?_ (refsIn_mapProperties hchange rest hrest)
      cases v with
      | scalar s => exact hv
      | list vs => exact hv
      | mapping fields => exact refs_mapSchema hchange (.mapping fields) hv

theorem refs_mapSchemas (hchange : ∀ t, RefsIn P t → RefsIn P (change t)) :
    (vs : List Value) → (∀ v ∈ vs, Refs P v) → ∀ v ∈ mapSchemas change vs, Refs P v
  | [], h => h
  | v :: rest, h => by
      obtain ⟨hv, hrest⟩ := List.forall_mem_cons.mp h
      exact List.forall_mem_cons.mpr
        ⟨refs_mapSchema hchange v hv, refs_mapSchemas hchange rest hrest⟩

end

theorem refsAt_mapSchema (hchange : ∀ t, RefsIn P t → RefsIn P (change t)) {v : Value}
    (h : RefsAt P key v) : RefsAt P key (mapSchema change v) := by
  cases v with
  | scalar s => exact h
  | list vs => exact h
  | mapping fields => exact refs_mapSchema hchange (.mapping fields) h

end

namespace Swagger

/-! ### Schemas -/

theorem refsIn_convertSchema (h : RefsIn P fields) : RefsIn P (convertSchema fields) := by
  have hfile : RefsIn P (convertFile fields) := by
    unfold convertFile
    split
    · exact (h.set (refsAt_string (by decide) _)).set (refsAt_string (by decide) _)
    · exact h
  have hnullable : RefsIn P (convertNullable (convertFile fields)) := by
    unfold convertNullable
    split
    · exact hfile.erase.set (refsAt_bool _)
    · exact hfile
  unfold convertSchema convertDiscriminator
  split
  · exact hnullable.set (refsIn_field "propertyName" (refsAt_string (by decide) _)).mapping
  · exact hnullable

mutual

theorem refs_carriedSchema : (v : Value) → Refs P v → Refs P (carriedSchema v)
  | .scalar _, h => h
  | .list _, h => h
  | .mapping fields, h => refsIn_convertSchema ((refsIn_carriedItems fields h).select keywords)

theorem refsIn_carriedItems : (fields : List (String × Value)) → RefsIn P fields →
    RefsIn P (carriedItems fields)
  | [], h => h
  | (key, v) :: rest, h => by
      obtain ⟨hv, hrest⟩ := refsIn_cons.mp h
      refine .cons key ?_ (refsIn_carriedItems rest hrest)
      split
      · rename_i hkey
        have hitems := refs_mapSchema (fun _ => refsIn_convertSchema) _
          (refs_carriedSchema v hv.refs)
        exact hitems.refsAt (by simp [hkey])
      · exact hv

end

theorem refsIn_schemaOf (h : RefsIn P fields) : RefsIn P (schemaOf fields) :=
  refsIn_convertSchema ((refsIn_carriedItems fields h).select keywords)

/-! ### Parameters, bodies and forms -/

theorem refsIn_styleFields : RefsIn P (styleFields fields) := by
  unfold styleFields
  split
  · split
    · exact .cons "style" (refsAt_string (by decide) _) (refsIn_field "explode" (refsAt_bool _))
    · exact .nil
  · exact .nil

theorem keys_styleFields_subset (parameter : Fields Value) :
    Fields.keys (styleFields parameter) ⊆ ["style", "explode"] := by
  unfold styleFields
  dsimp only
  split
  · split
    · exact List.Subset.refl _
    · exact List.nil_subset _
  · exact List.nil_subset _

theorem refsIn_convertParameter (h : RefsIn P fields) : RefsIn P (convertParameter fields) := by
  unfold convertParameter
  split
  · rename_i ref href
    exact refsIn_field "$ref" (h.get? href)
  · have hown : RefsIn P (Fields.set (Fields.select fields
        ["name", "in", "description", "required", "allowEmptyValue"]) "schema"
          (.mapping (schemaOf fields))) :=
      (h.select _).set (refsIn_schemaOf h).mapping
    exact (hown.update refsIn_styleFields).update h.extensions

theorem refsIn_contentFor {media : Fields Value} (h : RefsIn P media) (mediaTypes : List String) :
    RefsIn P (contentFor mediaTypes media) := by
  refine RefsIn.ofEntries (refsIn_iff.mpr fun e he => ?_)
  obtain ⟨m, -, rfl⟩ := List.mem_map.mp he
  exact h.mapping

/-- A schema under its key is converted in place. -/
theorem refsIn_schemaField {v : Value} (h : Refs P v) :
    RefsIn P [("schema", mapSchema convertSchema v)] :=
  refsIn_field "schema" ((refs_mapSchema (fun _ => refsIn_convertSchema) v h).refsAt (by decide))

theorem refsIn_bodyOf (h : RefsIn P fields) (consumes : List String) :
    RefsIn P (bodyOf fields consumes) := by
  have hschema : Refs P ((Fields.get? fields "schema").getD (.mapping [])) := by
    cases hget : Fields.get? fields "schema" with
    | none => exact RefsIn.nil
    | some v => exact (h.get? hget).refs
  have hcontent := refsIn_contentFor (refsIn_schemaField hschema) consumes
  have hbody := (refsIn_field "content" hcontent.mapping).setIfSome "description"
    fun v hv => h.get? hv
  unfold bodyOf
  dsimp only
  refine RefsIn.update ?_ h.extensions
  split
  · exact hbody.set (refsAt_bool true)
  · exact hbody

theorem refsIn_formOf {form : List (Fields Value)} (h : ∀ p ∈ form, RefsIn P p)
    (consumes : List String) : RefsIn P (formOf form consumes) := by
  have hproperties : RefsIn P (Fields.ofEntries ((namedFields form).map fun p =>
      (p.1, formProperty p.2))) := by
    refine RefsIn.ofEntries (refsIn_iff.mpr fun e he => ?_)
    obtain ⟨⟨name, parameter⟩, hmem, rfl⟩ := List.mem_map.mp he
    obtain ⟨p, hp, hname⟩ := List.mem_filterMap.mp hmem
    obtain ⟨text, -, heq⟩ := Option.map_eq_some_iff.mp hname
    cases heq
    exact ((refsIn_schemaOf (h parameter hp)).setIfSome "description"
      fun v hv => (h parameter hp).get? hv).mapping
  have hrequired : ∀ names : List (String × Fields Value),
      RefsAt P "required" (.list (names.map fun p => Value.string p.1)) := by
    intro names
    refine refsAt_list fun v hv => ?_
    obtain ⟨p, -, rfl⟩ := List.mem_map.mp hv
    exact fun ref hmem => nomatch hmem
  have hschema := RefsIn.cons "type" (refsAt_string (by decide) "object")
    (refsIn_field "properties" hproperties.mapping)
  unfold formOf
  dsimp only
  refine RefsIn.append (refsIn_field "content" (refsIn_field _ (refsIn_field "schema"
    (RefsIn.mapping (hschema.append ?_))).mapping).mapping) ?_
  · exact (refsIn_field "required" (hrequired _)).unless
  · exact (refsIn_field "required" (refsAt_bool true)).unless

/-! ### Responses -/

theorem refsIn_withExample {content : Fields Value} (h : RefsIn P content) (mediaType : String)
    {example? : Value} (hexample : Refs P example?) :
    RefsIn P (withExample content mediaType example?) :=
  h.set ((h.fieldsAt mediaType).set (hexample.refsAt (by decide))).mapping

theorem refsIn_withExamples {examples : Fields Value} (hexamples : RefsIn P examples) :
    ∀ {content : Fields Value}, RefsIn P content →
      RefsIn P (examples.foldl (fun acc e => withExample acc e.1 e.2) content) := by
  induction examples with
  | nil => exact id
  | cons e rest ih =>
      intro content h
      obtain ⟨hv, hrest⟩ := refsIn_cons.mp hexamples
      exact ih hrest (refsIn_withExample h e.1 hv.refs)

theorem refsAt_convertHeader {v : Value} (h : RefsAt P key v) : RefsAt P key (convertHeader v) := by
  have hfields : RefsIn P v.asFields := by
    cases v with
    | mapping fields => exact h
    | list vs => exact .nil
    | scalar s => exact .nil
  exact ((refsIn_field "schema" (refsIn_schemaOf hfields).mapping).setIfSome "description"
    fun v hv => hfields.get? hv).mapping

/-- The content of a response with its schema, before the examples are written. -/
theorem refsIn_responseContent {response : Fields Value} (hr : RefsIn P response)
    (produces : List String) :
    RefsIn P (match Fields.get? response "schema" with
      | some (.mapping schema) =>
        contentFor produces [("schema", mapSchema convertSchema (.mapping schema))]
      | _ => []) := by
  split
  · rename_i schema hschema
    exact refsIn_contentFor (refsIn_schemaField (hr.get? hschema).refs) produces
  · exact .nil

theorem refsAt_convertResponse {v : Value} (h : RefsAt P key v) (produces : List String) :
    RefsAt P key (convertResponse produces v) := by
  cases v with
  | scalar s => exact h
  | list vs => exact h
  | mapping response =>
      have hr : RefsIn P response := h
      rw [convertResponse]
      cases href : Fields.get? response "$ref" with
      | some ref => exact (refsIn_field "$ref" (hr.get? href)).mapping
      | none =>
          have hdescription : RefsAt P "description"
              ((Fields.get? response "description").getD (.string "")) := by
            cases hget : Fields.get? response "description" with
            | none => exact refsAt_string (by decide) ""
            | some v => exact hr.get? hget
          have hexamples :=
            refsIn_withExamples (hr.fieldsAt "examples") (refsIn_responseContent hr produces)
          have hheaders := (hr.fieldsAt "headers").mapValues fun _ _ => refsAt_convertHeader
          exact (RefsIn.update (((refsIn_field "description" hdescription).append
            (refsIn_field "content" hexamples.mapping).unless).append
            (refsIn_field "headers" hheaders.mapping).unless) hr.extensions).mapping

/-! ### Operations -/

/-- The references of what was written of an entry, and of what it stands for. -/
theorem refsIn_ofValue? {shared : Fields Value} (hshared : RefsIn P shared) {v : Value} {e : Entry}
    (hv : Refs P v) (he : Entry.ofValue? shared v = some e) :
    RefsIn P e.written ∧ RefsIn P e.resolved := by
  cases v with
  | scalar s => cases he
  | list vs => cases he
  | mapping written =>
      rw [Entry.ofValue?] at he
      split at he
      · split at he
        · rename_i target htarget
          cases he
          exact ⟨hv, hshared.get? htarget⟩
        · cases he
      · cases he
        exact ⟨hv, hv⟩

/-- Adding an entry is putting it in the place of the one with its key. -/
theorem addEntry_eq_putBy : addEntry = putBy Entry.key := by
  funext entries e
  induction entries with
  | nil => rfl
  | cons first rest ih => rw [addEntry, putBy, ih]

theorem effectiveEntries_eq_latest {shared : Fields Value} (ofPath ofOperation : List Value) :
    effectiveEntries shared ofPath ofOperation
      = latest Entry.key ((ofPath ++ ofOperation).filterMap (Entry.ofValue? shared)) := by
  rw [effectiveEntries, writtenEntries, addEntry_eq_putBy, foldl_putBy]

/-- The entries that count were written at the path or at the operation. -/
theorem exists_of_mem_effectiveEntries {shared : Fields Value} {ofPath ofOperation : List Value}
    {e : Entry} (h : e ∈ effectiveEntries shared ofPath ofOperation) :
    ∃ v ∈ ofPath ++ ofOperation, Entry.ofValue? shared v = some e := by
  rw [effectiveEntries_eq_latest] at h
  exact List.mem_filterMap.mp (mem_of_mem_latest h)

/-- The reference that an operation makes for a body that is a reference. -/
def bodyRef (ref : String) : String :=
  "#/components/requestBodies/" ++ String.ofList (ref.toList.drop parameterRefStart.length)

theorem bodyOfEntry_of_ref {e : Entry} {ref : String}
    (h : Fields.textAt? e.written "$ref" = some ref) (consumes : List String) :
    bodyOfEntry consumes e = [("$ref", .string (bodyRef ref))] := by
  unfold bodyOfEntry bodyRef
  rw [h]

/-- The request body of an operation has the references of its parameters, or the one made for it. -/
theorem refsIn_requestBody? {entries : List Entry} (h : ∀ e ∈ entries, RefsIn P e.resolved)
    (hmade : ∀ e ∈ entries, e.isAt "body" →
      ∀ ref, Fields.textAt? e.written "$ref" = some ref → P (bodyRef ref))
    {consumes : List String} {body : Fields Value} (hbody : requestBody? consumes entries = some body) :
    RefsIn P body := by
  unfold requestBody? at hbody
  dsimp only at hbody
  split at hbody
  · obtain ⟨e, hlast, rfl⟩ := Option.map_eq_some_iff.mp hbody
    obtain ⟨hmem, hat⟩ := List.mem_filter.mp (List.mem_of_getLast? hlast)
    cases href : Fields.textAt? e.written "$ref" with
    | some ref =>
        rw [bodyOfEntry_of_ref href]
        refine refsIn_field "$ref" ?_
        intro text htext
        simp only [refTextsAt, if_true, List.mem_singleton] at htext
        rw [htext]
        exact hmade e hmem hat ref href
    | none =>
        simp only [bodyOfEntry, href]
        exact refsIn_bodyOf (h e hmem) consumes
  · cases hbody
    refine refsIn_formOf (fun p hp => ?_) consumes
    obtain ⟨e, he, rfl⟩ := List.mem_map.mp hp
    exact h e (List.mem_filter.mp he).1

/-- An operation of a description of version 2, at a path. -/
structure IsOperation (spec : Fields Value) (path method : String) (item operation : Fields Value) :
    Prop where
  mem_paths : (path, .mapping item) ∈ Fields.fieldsAt spec "paths"
  mem_methods : method ∈ methods
  get?_item : Fields.get? item method = some (.mapping operation)

/-- The entries that count for an operation of a path. -/
def entriesOf (spec item operation : Fields Value) : List Entry :=
  effectiveEntries (Fields.fieldsAt spec "parameters") (Fields.itemsAt item "parameters")
    (Fields.itemsAt operation "parameters")

section

variable {spec item operation : Fields Value}

/-- The entries of an operation have the references of the description. -/
theorem refsIn_entriesOf (hspec : RefsIn P spec) (hitem : RefsIn P item)
    (hoperation : RefsIn P operation) :
    ∀ e ∈ entriesOf spec item operation, RefsIn P e.written ∧ RefsIn P e.resolved := by
  intro e he
  obtain ⟨v, hv, hof⟩ := exists_of_mem_effectiveEntries he
  refine refsIn_ofValue? (hspec.fieldsAt "parameters") ?_ hof
  exact (List.mem_append.mp hv).elim (hitem.itemsAt "parameters" v)
    (hoperation.itemsAt "parameters" v)

theorem refsIn_convertOperation (hspec : RefsIn P spec) (hitem : RefsIn P item)
    (hoperation : RefsIn P operation)
    (hmade : ∀ e ∈ entriesOf spec item operation, e.isAt "body" →
      ∀ ref, Fields.textAt? e.written "$ref" = some ref → P (bodyRef ref)) :
    RefsIn P (convertOperation spec (Fields.itemsAt item "parameters") operation) := by
  have hentries := refsIn_entriesOf hspec hitem hoperation
  have hbody : ∀ consumes, RefsIn P ((requestBody? consumes (entriesOf spec item operation)).map
      fun b => ("requestBody", Value.mapping b)).toList := by
    intro consumes
    cases hbody : requestBody? consumes (entriesOf spec item operation) with
    | none => exact .nil
    | some body =>
        exact refsIn_field "requestBody"
          (refsIn_requestBody? (fun e he => (hentries e he).2) hmade hbody).mapping
  have hparameters : ∀ v ∈ ((entriesOf spec item operation).filter Entry.isPlain).map fun e =>
      Value.mapping (convertParameter e.written), Refs P v := by
    intro v hv
    obtain ⟨e, he, rfl⟩ := List.mem_map.mp hv
    exact refsIn_convertParameter (hentries e (List.mem_filter.mp he).1).1
  have hresponses := (hoperation.fieldsAt "responses").mapValues fun _ _ h =>
    refsAt_convertResponse h (effectiveMediaTypes (Fields.itemsAt operation "produces")
      (Fields.itemsAt spec "produces"))
  exact RefsIn.update ((((hoperation.select _).append (hbody _)).append
    (refsIn_field "parameters" (refsAt_list hparameters)).unless).append
    (refsIn_field "responses" hresponses.mapping)) hoperation.extensions

theorem refsIn_convertPathItem (hspec : RefsIn P spec) (hitem : RefsIn P item)
    (hmade : ∀ method operation, method ∈ methods →
      Fields.get? item method = some (.mapping operation) →
        ∀ e ∈ entriesOf spec item operation, e.isAt "body" →
          ∀ ref, Fields.textAt? e.written "$ref" = some ref → P (bodyRef ref)) :
    RefsIn P (convertPathItem spec item) := by
  refine RefsIn.update (refsIn_iff.mpr fun e he => ?_) hitem.extensions
  obtain ⟨method, hmethod, heq⟩ := List.mem_filterMap.mp he
  split at heq
  · rename_i operation hget
    cases heq
    exact (refsIn_convertOperation hspec hitem (hitem.get? hget)
      (hmade method operation hmethod hget)).mapping
  · cases heq

theorem refsIn_paths (hspec : RefsIn P spec)
    (hmade : ∀ path method item operation, IsOperation spec path method item operation →
      ∀ e ∈ entriesOf spec item operation, e.isAt "body" →
        ∀ ref, Fields.textAt? e.written "$ref" = some ref → P (bodyRef ref)) :
    RefsIn P (paths spec) := by
  refine refsIn_iff.mpr fun e he => ?_
  obtain ⟨⟨path, v⟩, hmem, heq⟩ := List.mem_filterMap.mp he
  split at heq
  · rename_i item hitem
    cases heq
    subst hitem
    have hpath := refsIn_iff.mp (hspec.fieldsAt "paths") _ hmem
    exact (refsIn_convertPathItem hspec hpath fun method operation hmethod hget =>
      hmade path method item operation ⟨hmem, hmethod, hget⟩).mapping
  · cases heq

end

/-! ### The rest of a description -/

theorem refsAt_convertSecurityScheme {v : Value} (h : RefsAt P key v) :
    RefsAt P key (convertSecurityScheme v) := by
  cases v with
  | scalar s => exact h
  | list vs => exact h
  | mapping scheme =>
      have hs : RefsIn P scheme := h
      have hflow := (refsIn_field "scopes" (hs.fieldsAt "scopes").mapping).update
        (hs.select ["authorizationUrl", "tokenUrl"])
      have hflows : RefsAt P "flows" (flows scheme) := (refsIn_field _ hflow.mapping).mapping
      have hfields : RefsIn P (schemeFields scheme) := by
        unfold schemeFields
        split
        · exact .cons "type" (refsAt_string (by decide) _)
            (refsIn_field "scheme" (refsAt_string (by decide) _))
        · exact hs.select _
        · exact .cons "type" (refsAt_string (by decide) _) (refsIn_field "flows" hflows)
        · exact hs
      exact ((hfields.setIfSome "description" fun v hv => hs.get? hv).update hs.extensions).mapping

theorem refs_servers (spec : Fields Value) : ∀ v ∈ servers spec, Refs P v := by
  have hserver : ∀ url, Refs P (server url) := fun url =>
    refsIn_field "url" (refsAt_string (by decide) url)
  have hplain : ∀ basePath, ∀ v ∈ (if basePath = "" then [] else [server basePath]), Refs P v := by
    intro basePath v hv
    split at hv
    · cases hv
    · exact List.mem_singleton.mp hv ▸ hserver basePath
  intro v hv
  unfold servers at hv
  dsimp only at hv
  split at hv
  · exact hplain _ v hv
  · exact hplain _ v hv
  · obtain ⟨scheme, -, rfl⟩ := List.mem_map.mp hv
    exact hserver _

theorem refsIn_mappingField (h : RefsIn P fields) : RefsIn P (mappingField key fields) :=
  (refsIn_field key h.mapping).unless

/-- The fields of a parameter of the whole description. -/
theorem refsIn_shared {spec : Fields Value} (hspec : RefsIn P spec) :
    ∀ p ∈ (Fields.fieldsAt spec "parameters").map fun p => (p.1, p.2.asFields), RefsIn P p.2 := by
  intro p hp
  obtain ⟨⟨name, v⟩, hmem, rfl⟩ := List.mem_map.mp hp
  have hv := refsIn_iff.mp (hspec.fieldsAt "parameters") _ hmem
  cases v with
  | mapping fields => exact hv
  | list vs => exact .nil
  | scalar s => exact .nil

theorem refsIn_sharedBody? {consumes : List String} {parameter body : Fields Value}
    (h : RefsIn P parameter) (hbody : sharedBody? consumes parameter = some body) :
    RefsIn P body := by
  unfold sharedBody? at hbody
  split at hbody
  · cases hbody
    exact refsIn_bodyOf h consumes
  · split at hbody
    · cases hbody
      exact refsIn_formOf (fun p hp => List.mem_singleton.mp hp ▸ h) consumes
    · cases hbody

theorem refsIn_components {spec : Fields Value} (hspec : RefsIn P spec) :
    RefsIn P (components spec) := by
  have hshared := refsIn_shared hspec
  refine (((RefsIn.append ?_ (refsIn_mappingField (refsIn_iff.mpr fun e he => ?_))).append
    (refsIn_mappingField (refsIn_iff.mpr fun e he => ?_))).append ?_).append ?_
  · exact refsIn_mappingField ((hspec.fieldsAt "definitions").mapValues fun _ _ =>
      refsAt_mapSchema fun _ => refsIn_convertSchema)
  · obtain ⟨p, hp, rfl⟩ := List.mem_map.mp he
    exact (refsIn_convertParameter (hshared p (List.mem_filter.mp hp).1)).mapping
  · obtain ⟨p, hp, heq⟩ := List.mem_filterMap.mp he
    obtain ⟨body, hbody, rfl⟩ := Option.map_eq_some_iff.mp heq
    exact (refsIn_sharedBody? (hshared p hp) hbody).mapping
  · exact refsIn_mappingField ((hspec.fieldsAt "responses").mapValues fun _ _ h =>
      refsAt_convertResponse h _)
  · exact refsIn_mappingField ((hspec.fieldsAt "securityDefinitions").mapValues fun _ _ =>
      refsAt_convertSecurityScheme)

/--
**A converted description has the references of the description**, and those that are made for
bodies.
-/
theorem refsIn_convert {spec : Fields Value} (hspec : RefsIn P spec)
    (hmade : ∀ path method item operation, IsOperation spec path method item operation →
      ∀ e ∈ entriesOf spec item operation, e.isAt "body" →
        ∀ ref, Fields.textAt? e.written "$ref" = some ref → P (bodyRef ref)) :
    RefsIn P (convert spec) := by
  have hparts := RefsIn.cons "info" (hspec.fieldsAt "info").mapping
    (.cons "servers" (refsAt_list (refs_servers spec))
      (.cons "paths" (refsIn_paths hspec hmade).mapping
        (.cons "components" (refsIn_components hspec).mapping
          (.cons "security" (refsAt_list (hspec.itemsAt "security"))
            (refsIn_field "tags" (refsAt_list (hspec.itemsAt "tags")))))))
  have hfields := hparts.update hspec.extensions
  unfold convert
  dsimp only
  split
  · rename_i docs hdocs
    exact hfields.set (hspec.get? hdocs)
  · exact hfields

end Swagger

end ApiClientGen.Canonical
