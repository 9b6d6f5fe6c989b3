/-
Shared parameters and responses describe the same interface as copies of them.

In a description of version 2, an operation may refer to a parameter or a response of the whole
description or have a copy of it.  In canonical form both documents are the same but for this
place, where the one has a reference to a component and the other has what that component is.
So the interfaces are the same.  It takes plain names and references, and that the media types
of the operation are those of the description, where they are used: a body that is shared does
not have the media types of the operations that refer to it.
-/
import ApiClientGen.Proofs.Canonical.Swagger.Sharing
import ApiClientGen.Proofs.Extraction.ComponentReferences
import ApiClientGen.Proofs.Extraction.Inlining

namespace ApiClientGen.Extraction

open ApiClientGen.Canonical ApiClientGen.Canonical.Swagger ApiClientGen.Document
  ApiClientGen.Reference ApiClientGen.Reference.Linked ApiClientGen.Text

/-! ### Where plain references lead -/

section

variable {ref part rest : String}

theorem leadsAlong_of_two {first second : String} (h : LeadsAlong [first, second] ref) :
    LeadsAlong [first] ref := by
  obtain ⟨pointer, rest, hpointer, hwithout, hparts⟩ := h
  exact ⟨pointer, second :: rest, hpointer, hwithout, hparts⟩

/-- A plain reference to a section of the components is a pointer after a hash. -/
theorem pointer_of_section (hmarks : IsWithout refMarks part) (hrest : IsWithout refMarks rest) :
    "#/components/" ++ part ++ "/" ++ rest
        = "#" ++ ("/" ++ "components" ++ "/" ++ part ++ "/" ++ rest)
      ∧ IsWithout ['\t', '\r', '\n'] ("/" ++ "components" ++ "/" ++ part ++ "/" ++ rest) := by
  have hslash : IsWithout refMarks "/" := by decide
  have hcomponents : IsWithout refMarks "components" := by decide
  have hall : IsWithout refMarks ("/" ++ "components" ++ "/" ++ part ++ "/" ++ rest) := by
    simp only [isWithout_append]
    exact ⟨⟨⟨⟨⟨hslash, hcomponents⟩, hslash⟩, hmarks⟩, hslash⟩, hrest⟩
  refine ⟨String.toList_injective ?_, hall.mono (by simp [refMarks])⟩
  simp

theorem leadsAlong_section (hpart : IsPlainName part) (hmarks : IsWithout refMarks part)
    (hrest : IsWithout refMarks rest) :
    LeadsAlong ["components", part] ("#/components/" ++ part ++ "/" ++ rest) := by
  obtain ⟨hpointer, hwithout⟩ := pointer_of_section hmarks hrest
  exact ⟨_, _, hpointer, hwithout,
    pointerParts_two (by decide) (by decide) hpart (hrest.notMem (by simp [refMarks]))⟩

theorem leadsToEntry_section {name : String} (hpart : IsPlainName part)
    (hmarks : IsWithout refMarks part) (hname : IsPlainName name)
    (hwithout : IsWithout refMarks name) :
    LeadsToEntry part name ("#/components/" ++ part ++ "/" ++ name) := by
  obtain ⟨hpointer, hall⟩ := pointer_of_section hmarks hwithout
  exact ⟨_, hpointer, hall, pointerParts_three (by decide) (by decide) hpart hname⟩

theorem leadsAlong_of_isDefinitionRef (h : IsDefinitionRef ref) :
    LeadsAlong ["components", "schemas"] (canonicalRef ref) := by
  obtain ⟨rest, rfl⟩ := beginsWith_iff.mp h.1
  rw [canonicalRef_definitions]
  exact leadsAlong_section (by decide) (by decide) ((isWithout_append.mp h.2).2)

theorem leadsAlong_of_isSharedRef (h : IsSharedRef ref) :
    LeadsAlong ["components"] (canonicalRef ref) := by
  obtain ⟨⟨start, hstart, hbegins⟩, hwithout⟩ := h
  obtain ⟨rest, rfl⟩ := beginsWith_iff.mp hbegins
  have hrest := (isWithout_append.mp hwithout).2
  simp only [refStarts, List.mem_cons, List.not_mem_nil, or_false] at hstart
  rcases hstart with rfl | rfl | rfl
  · rw [canonicalRef_definitions]
    exact leadsAlong_of_two (leadsAlong_section (by decide) (by decide) hrest)
  · rw [canonicalRef_parameters]
    exact leadsAlong_of_two (leadsAlong_section (by decide) (by decide) hrest)
  · rw [canonicalRef_responses]
    exact leadsAlong_of_two (leadsAlong_section (by decide) (by decide) hrest)

theorem leadsAlong_bodyRef (h : IsSharedRef ref) :
    LeadsAlong ["components"] (canonicalRef (bodyRef ref)) := by
  have hrest : IsWithout refMarks (String.ofList (ref.toList.drop parameterRefStart.length)) := by
    intro c hc
    rw [String.toList_ofList] at hc
    exact h.2 c (List.mem_of_mem_drop hc)
  rw [canonicalRef_bodyRef, bodyRef_eq_append]
  exact leadsAlong_of_two (leadsAlong_section (by decide) (by decide) hrest)

end

/-! ### Canonical forms written anew -/

/-- What a value is in canonical form and written anew, by the key that it is under. -/
def linkedAt (key : String) (v : Value) : Value := withoutBytes (canonicalRefAt key v)

theorem byParts_linkedAt : ByParts linkedAt where
  mapping key t := by
    rw [linkedAt, canonicalRefAt, withoutBytes, fieldsWithoutBytes_eq_map, canonicalRefFields_eq_map,
      List.map_map]
    rfl
  list key vs := by
    have hitem : ∀ v, canonicalRefs v = canonicalRefAt "" v := by
      intro v
      cases v with
      | scalar s => cases s <;> rfl
      | list vs => rfl
      | mapping fields => rfl
    rw [linkedAt, canonicalRefAt, withoutBytes, itemsWithoutBytes_eq_map, canonicalRefItems_eq_map,
      List.map_map, funext hitem]
    rfl

theorem refsAt_linkedAt {P : String → Prop} {key : String} {v : Value}
    (h : RefsAt (fun ref => P (canonicalRef ref)) key v) : RefsAt P key (linkedAt key v) := by
  refine refsAt_withoutBytes key _ fun ref href => ?_
  rw [refTextsAt_canonicalRefAt] at href
  obtain ⟨source, hsource, rfl⟩ := List.mem_map.mp href
  exact h source hsource

theorem asText?_linkedAt (v : Value) :
    (linkedAt "$ref" v).asText? = v.asText?.map canonicalRef := by
  cases v with
  | scalar s => cases s <;> rfl
  | list vs => rfl
  | mapping fields => rfl

/-- The fields of a canonical form, written anew. -/
def linkedFields (d : CanonicalDocument) : Fields Value :=
  Fields.ofEntries (fieldsWithoutBytes d.fields)

theorem linkedFields_eq_map (d : CanonicalDocument) :
    linkedFields d = d.fields.map fun e => (e.1, withoutBytes e.2) := by
  have hnodup := CanonicalDocument.nodup_keys_fields d
  rw [← keys_fieldsWithoutBytes] at hnodup
  rw [linkedFields, Fields.ofEntries_eq_self hnodup, fieldsWithoutBytes_eq_map]

/-- A canonical form can be linked if nothing is misplaced in its fields. -/
theorem ofFields_linkedFields {d : CanonicalDocument}
    (h : misplaced? (.mapping (linkedFields d)) = none) :
    Linked.ofFields d.fields = .ok ⟨.mapping (linkedFields d)⟩ :=
  ofFields_eq_ok.mpr ⟨rfl, h⟩

theorem asFields_withoutBytes (v : Value) :
    (withoutBytes v).asFields = Fields.ofEntries (fieldsWithoutBytes v.asFields) := by
  cases v with
  | scalar s => cases s <;> rfl
  | list vs => rfl
  | mapping fields => rfl

theorem fieldsAt_linkedFields (d : CanonicalDocument) (key : String) :
    Fields.fieldsAt (linkedFields d) key
      = Fields.ofEntries (fieldsWithoutBytes (Fields.fieldsAt d.fields key)) := by
  rw [Fields.fieldsAt, linkedFields_eq_map, Fields.get?_map fun _ => withoutBytes, Fields.fieldsAt]
  cases Fields.get? d.fields key with
  | none => rfl
  | some v => exact asFields_withoutBytes v

section

variable {content : Fields Value}

/-- The components of a canonical form are those of the converted description, each written anew. -/
theorem linked_components (content : Fields Value) :
    Fields.fieldsAt (linkedFields (upgrade ⟨.swagger2, content⟩)) "components"
      = (components content).map fun e => (e.1, linkedAt e.1 e.2) := by
  have hnodup :
      (Fields.keys (fieldsWithoutBytes (canonicalRefFields (components content)))).Nodup := by
    rw [keys_fieldsWithoutBytes, canonicalRefFields_eq_map, Fields.keys_map canonicalRefAt]
    exact (keys_components_sublist content).nodup (by decide)
  rw [fieldsAt_linkedFields, fieldsAt_upgrade_components, Fields.ofEntries_eq_self hnodup,
    fieldsWithoutBytes_eq_map, canonicalRefFields_eq_map, List.map_map]
  rfl

/-! ### Descriptions whose references can be written out -/

/--
**A description that shares plainly**: its names and references are written plainly, its
definitions refer to definitions only, and no shared parameter or response hides another one.
-/
structure SharesPlainly (content : Fields Value) : Prop where
  names : HasPlainNames content
  parameters : (Fields.keys (Fields.fieldsAt content "parameters")).Nodup
  responses : (Fields.keys (Fields.fieldsAt content "responses")).Nodup
  plain : Fields.textAt? (Fields.fieldsAt content "responses") "$ref" = none
  refs : RefsIn IsSharedRef content
  definitions : RefsIn IsDefinitionRef (Fields.fieldsAt content "definitions")

theorem asText?_convertResponse (produces : List String) (v : Value) :
    (convertResponse produces v).asText? = v.asText? := by
  cases v with
  | scalar s => rfl
  | list vs => rfl
  | mapping response =>
      rw [convertResponse]
      split <;> rfl

/-- The shared parameters hide no entries, and are no reference. -/
theorem plain_parameters (h : (Fields.keys (Fields.fieldsAt content "parameters")).Nodup) :
    (Fields.keys (Fields.fieldsAt (components content) "parameters")).Nodup
      ∧ Fields.textAt? (Fields.fieldsAt (components content) "parameters") "$ref" = none := by
  have hshared : (Fields.keys (sharedParameters content)).Nodup := by
    have hkeys : Fields.keys (sharedParameters content)
        = Fields.keys (Fields.fieldsAt content "parameters") :=
      Fields.keys_map (fun _ => Value.asFields) _
    exact hkeys ▸ h
  rw [fieldsAt_components_parameters]
  refine ⟨?_, Fields.textAt?_of_mappings (fun e he => ?_) _⟩
  · rw [Fields.keys_map fun _ p => Value.mapping (convertParameter p)]
    exact Fields.nodup_keys_filter hshared _
  · obtain ⟨p, -, rfl⟩ := List.mem_map.mp he
    exact ⟨_, rfl⟩

/-- The sections of what is shared hide no entries, and are no references. -/
theorem SharesPlainly.plainSection (h : SharesPlainly content) {part : String}
    (hpart : part ∈ ["parameters", "requestBodies", "responses"]) :
    (Fields.keys (Fields.fieldsAt (components content) part)).Nodup
      ∧ Fields.textAt? (Fields.fieldsAt (components content) part) "$ref" = none := by
  have hshared : (Fields.keys (sharedParameters content)).Nodup := by
    have hkeys : Fields.keys (sharedParameters content)
        = Fields.keys (Fields.fieldsAt content "parameters") :=
      Fields.keys_map (fun _ => Value.asFields) _
    exact hkeys ▸ h.parameters
  simp only [List.mem_cons, List.not_mem_nil, or_false] at hpart
  rcases hpart with rfl | rfl | rfl
  · exact plain_parameters h.parameters
  · rw [fieldsAt_components_requestBodies]
    refine ⟨?_, Fields.textAt?_of_mappings (fun e he => ?_) _⟩
    · exact (Fields.keys_filterMap_sublist (fun p => sharedBody? _ p.2) Value.mapping _).nodup hshared
    · obtain ⟨p, -, heq⟩ := List.mem_filterMap.mp he
      obtain ⟨body, -, rfl⟩ := Option.map_eq_some_iff.mp heq
      exact ⟨_, rfl⟩
  · rw [fieldsAt_components_responses]
    refine ⟨?_, ?_⟩
    · rw [Fields.keys_mapValues]
      exact h.responses
    · have hplain := h.plain
      rw [Fields.textAt?] at hplain ⊢
      rw [Fields.get?_mapValues]
      cases hget : Fields.get? (Fields.fieldsAt content "responses") "$ref" with
      | none => rfl
      | some v =>
          rw [hget] at hplain
          exact (asText?_convertResponse _ v).trans hplain

theorem textAt?_linkedAt (fields : Fields Value) :
    Fields.textAt? (fields.map fun e => (e.1, linkedAt e.1 e.2)) "$ref"
      = (Fields.textAt? fields "$ref").map canonicalRef := by
  rw [Fields.textAt?, Fields.get?_map linkedAt, Fields.textAt?]
  cases Fields.get? fields "$ref" with
  | none => rfl
  | some v => exact asText?_linkedAt v

/-- Neither the linked document nor its components are a reference. -/
theorem root_plain (content : Fields Value) :
    Fields.textAt? (linkedFields (upgrade ⟨.swagger2, content⟩)) refKey = none :=
  textAt?_ofEntries_fields (CanonicalDocument.isSorted_ofFields _)

theorem components_plain (content : Fields Value) :
    Fields.textAt? (Fields.fieldsAt (linkedFields (upgrade ⟨.swagger2, content⟩)) "components")
      refKey = none := by
  have hnone : Fields.textAt? (components content) "$ref" = none := by
    rw [Fields.textAt?, Fields.get?_eq_none fun hmem =>
      absurd ((keys_components_sublist content).subset hmem) (by decide)]
    rfl
  rw [linked_components]
  exact (textAt?_linkedAt _).trans (by rw [hnone]; rfl)

/-- Mappings with distinct keys keep them. -/
theorem linkedAt_mapping {fields : Fields Value} (h : (Fields.keys fields).Nodup) (key : String) :
    linkedAt key (.mapping fields) = .mapping (fields.map fun e => (e.1, linkedAt e.1 e.2)) := by
  rw [byParts_linkedAt.mapping, Fields.ofEntries_eq_self]
  rwa [Fields.keys_map linkedAt]

theorem plain_sectionName : ∀ part ∈ ["parameters", "requestBodies", "responses"],
    IsPlainName part ∧ IsWithout refMarks part ∧ part ≠ "schemas" := by
  decide

/-- **A reference to a component, and the component, are such in the linked document.** -/
theorem SharesPlainly.inlines (h : SharesPlainly content) {v w : Value} (hvw : Unfolds content v w)
    (key : String) :
    Inlines (Fields.fieldsAt (linkedFields (upgrade ⟨.swagger2, content⟩)) "components")
      (linkedAt key v) (linkedAt key w) := by
  cases hvw with
  | same v => exact .same _
  | @entry part name source target hpart hname hwithout href hmem hkeys hplain hrefs =>
      obtain ⟨hnodup, hsection⟩ := h.plainSection hpart
      have hreference : linkedAt key (.mapping [("$ref", .string source)])
          = .mapping [("$ref", .string (canonicalRef source))] :=
        linkedAt_mapping (show (Fields.keys [("$ref", Value.string source)]).Nodup from
          List.nodup_singleton "$ref") key
      have hcomponent : Fields.get? (Fields.fieldsAt
            (linkedFields (upgrade ⟨.swagger2, content⟩)) "components") part
          = some (.mapping ((Fields.fieldsAt (components content) part).map
            fun e => (e.1, linkedAt e.1 e.2))) := by
        rw [linked_components, Fields.get?_map linkedAt, Fields.get?_of_mem_fieldsAt hmem,
          Option.map_some, linkedAt_mapping hnodup]
      have htarget : Fields.get? ((Fields.fieldsAt (components content) part).map
            fun e => (e.1, linkedAt e.1 e.2)) name
          = some (.mapping (target.map fun e => (e.1, linkedAt e.1 e.2))) := by
        rw [Fields.get?_map linkedAt, Fields.get?_of_mem hnodup hmem, Option.map_some,
          linkedAt_mapping hkeys]
      obtain ⟨hplainPart, hmarks, hbeside⟩ := plain_sectionName part hpart
      have hlead : LeadsToEntry part name (canonicalRef source) :=
        href ▸ leadsToEntry_section hplainPart hmarks hname hwithout
      have htargetRefs : RefsIn (LeadsAlong ["components", "schemas"])
          (target.map fun e => (e.1, linkedAt e.1 e.2)) := by
        have hlinked : RefsAt (LeadsAlong ["components", "schemas"]) key
            (linkedAt key (.mapping target)) :=
          refsAt_linkedAt fun ref hmem => leadsAlong_of_isDefinitionRef (hrefs ref hmem)
        rwa [linkedAt_mapping hkeys] at hlinked
      rw [hreference, linkedAt_mapping hkeys]
      refine .entry rfl hlead hbeside hcomponent ?_ htarget ?_ htargetRefs
      · exact (textAt?_linkedAt _).trans (by rw [hsection]; rfl)
      · exact (textAt?_linkedAt _).trans (by rw [hplain]; rfl)

/-! ### References of the linked document -/

/-- References to what is shared become references into the components. -/
theorem refsIn_linkedFields (h : RefsIn IsSharedRef content) :
    RefsIn (LeadsAlong ["components"]) (linkedFields (upgrade ⟨.swagger2, content⟩)) := by
  have hconverted : RefsIn (fun source => LeadsAlong ["components"] (canonicalRef source))
      (convert content) := by
    refine refsIn_convert (fun ref hmem => leadsAlong_of_isSharedRef (h ref hmem)) ?_
    intro path method item operation hoperation e he _ source hsource
    have hitem : RefsIn IsSharedRef item :=
      refsIn_iff.mp (h.fieldsAt "paths") _ hoperation.mem_paths
    have hwritten := (refsIn_entriesOf h hitem (hitem.get? hoperation.get?_item) e he).1
    exact leadsAlong_bodyRef (refsIn_textAt? hwritten hsource)
  have hfields : RefsIn (LeadsAlong ["components"]) (upgrade ⟨.swagger2, content⟩).fields := by
    intro ref hmem
    obtain ⟨source, hsource, rfl⟩ := exists_source_of_mem hmem
    exact hconverted source hsource
  exact (refsIn_fieldsWithoutBytes _ hfields).ofEntries

/-- References to definitions become references to schemas. -/
theorem SharesPlainly.schemas (h : SharesPlainly content) {v : Value}
    (hv : Fields.get? (Fields.fieldsAt (linkedFields (upgrade ⟨.swagger2, content⟩)) "components")
      "schemas" = some v) : Refs (LeadsAlong ["components", "schemas"]) v := by
  rw [linked_components, Fields.get?_map linkedAt] at hv
  obtain ⟨w, hw, rfl⟩ := Option.map_eq_some_iff.mp hv
  have hdefinitions : RefsIn IsDefinitionRef (Fields.fieldsAt (components content) "schemas") := by
    rw [fieldsAt_components_schemas]
    exact h.definitions.mapValues fun _ _ => refsAt_mapSchema fun _ => refsIn_convertSchema
  have hlinked : RefsAt (LeadsAlong ["components", "schemas"]) "schemas"
      (linkedAt "schemas" (.mapping (Fields.fieldsAt (components content) "schemas"))) :=
    refsAt_linkedAt fun ref hmem => leadsAlong_of_isDefinitionRef (hdefinitions ref hmem)
  rw [eq_fieldsAt_of_mem_components (Fields.mem_of_get? hw)]
  exact hlinked.refs

variable {path method : String} {item operation operation' : Fields Value}

/-- A reference that is written out brings in references to definitions only. -/
theorem refsIn_of_writtenOut (h : RefsIn IsSharedRef operation)
    (hout : WrittenOut content operation operation') : RefsIn IsSharedRef operation' := by
  have hcopy : ∀ {target : Fields Value}, IsCopyable target → RefsIn IsSharedRef target :=
    fun hcopyable ref hmem => IsDefinitionRef.isSharedRef (hcopyable.refs ref hmem)
  cases hout with
  | @parameter before after written target name list ref shared copyable types =>
      have hitems : ∀ v ∈ before ++ .mapping written :: after, Refs IsSharedRef v :=
        refs_list.mp (h.get? list).refs
      refine h.set (refsAt_list fun v hv => ?_)
      rcases List.mem_append.mp hv with hbefore | hafter
      · exact hitems v (List.mem_append_left _ hbefore)
      · rcases List.mem_cons.mp hafter with rfl | hafter
        · exact hcopy copyable
        · exact hitems v (List.mem_append_right _ (List.mem_cons_of_mem _ hafter))
  | response responses ref shared copyable types =>
      exact h.set ((h.fieldsAt "responses").set (hcopy copyable).mapping).mapping

theorem refsIn_withOperation (h : RefsIn IsSharedRef content)
    (hpath : Fields.get? (Fields.fieldsAt content "paths") path = some (.mapping item))
    (hget : Fields.get? item method = some (.mapping operation))
    (hout : WrittenOut content operation operation') :
    RefsIn IsSharedRef (withOperation content path item method operation') := by
  have hitem : RefsIn IsSharedRef item := (h.fieldsAt "paths").get? hpath
  have hoperation := refsIn_of_writtenOut (hitem.get? hget) hout
  exact h.set ((h.fieldsAt "paths").set (hitem.set hoperation.mapping).mapping).mapping

/-! ### Both documents -/

/-- **The linked documents of a description, and of one with a reference written out.** -/
theorem SharesPlainly.inlined (h : SharesPlainly content)
    (hpath : Fields.get? (Fields.fieldsAt content "paths") path = some (.mapping item))
    (hmethod : method ∈ methods) (hget : Fields.get? item method = some (.mapping operation))
    (hout : WrittenOut content operation operation') :
    Inlined (linkedFields (upgrade ⟨.swagger2, content⟩))
      (linkedFields (upgrade ⟨.swagger2, withOperation content path item method operation'⟩)) where
  related := by
    have hitem : RefsIn IsSharedRef item := (h.refs.fieldsAt "paths").get? hpath
    have hpaths := byParts_linkedAt.paths (fun key v w hvw => h.inlines hvw key)
      (related_paths h.names (hitem.get? hget) hpath hmethod hget hout) "paths"
    have hfields : Fields.Related (fun key v w => DocumentField
          (Inlines (Fields.fieldsAt (linkedFields (upgrade ⟨.swagger2, content⟩)) "components"))
          key (withoutBytes v) (withoutBytes w))
        (upgrade ⟨.swagger2, content⟩).fields
        (upgrade ⟨.swagger2, withOperation content path item method operation'⟩).fields := by
      have hsame : ∀ (r : Value → Value → Prop) (key : String) (v : Value),
          DocumentField r key (withoutBytes v) (withoutBytes v) :=
        fun r key v => DocumentField.refl r key _
      rw [upgrade_withOperation]
      refine related_fields (hsame _) ?_
      rw [paths_upgrade]
      exact hpaths
    -- Keys are distinct already, so that writing anew changes values only.
    have hlinked := hfields.map fun _ _ _ hvw => hvw
    rwa [← linkedFields_eq_map, ← linkedFields_eq_map] at hlinked
  root := root_plain content
  components := components_plain content
  schemas v hv := h.schemas hv
  left := refsIn_linkedFields h.refs
  right := refsIn_linkedFields (refsIn_withOperation h.refs hpath hget hout)

end

/--
**Shared parameters and responses describe the same interface as copies of them.**  If one of the
references of an operation is written out, the same interface is extracted.
-/
theorem extract_upgrade_withOperation {content item operation operation' : Fields Value}
    {path method : String} {linked : Linked} (h : SharesPlainly content)
    (hlinked : Linked.ofFields (upgrade ⟨.swagger2, content⟩).fields = .ok linked)
    (hpath : Fields.get? (Fields.fieldsAt content "paths") path = some (.mapping item))
    (hmethod : method ∈ methods) (hget : Fields.get? item method = some (.mapping operation))
    (hout : WrittenOut content operation operation') :
    extract (upgrade ⟨.swagger2, withOperation content path item method operation'⟩)
      = extract (upgrade ⟨.swagger2, content⟩) := by
  have hinlined := h.inlined hpath hmethod hget hout
  obtain ⟨rfl, hnone⟩ := ofFields_eq_ok.mp hlinked
  exact (extract_eq_of_inlined (ofFields_linkedFields hnone)
    (ofFields_linkedFields (hinlined.linkable hnone)) hinlined).symm

/-- A parameter that is a body. -/
def petBody : Fields Value :=
  [("name", .string "pet"), ("in", .string "body"),
    ("schema", .mapping [("type", .string "string")])]

/-- The reference to that parameter, shared by a whole description. -/
def petRef : Fields Value := [("$ref", .string "#/parameters/Pet")]

/-- An operation that has a parameter, and media types of its own. -/
def petOperation (consumes : List Value) (parameter : Fields Value) : Fields Value :=
  [("consumes", .list consumes), ("parameters", .list [.mapping parameter]),
    ("responses", .mapping [])]

/-- The path of that operation. -/
def petItem (operation : Fields Value) : Fields Value := [("post", .mapping operation)]

/-- A description that shares the body and has the operation. -/
def petContent (operation : Fields Value) : Fields Value :=
  [("swagger", .string "2.0"),
    ("info", .mapping [("title", .string "t"), ("version", .string "1")]),
    ("parameters", .mapping [("Pet", .mapping petBody)]),
    ("paths", .mapping [("/pets", .mapping (petItem operation))])]

/-- The media types of the bodies in the interface that a description of version 2 describes. -/
def bodyTypes (content : Fields Value) : Option (List (Option String)) :=
  (extract (upgrade ⟨.swagger2, content⟩)).toOption.map fun spec =>
    spec.operations.map fun o => o.body.map (·.mediaType)

theorem extract_petContent :
    SharesPlainly (petContent (petOperation [] petRef))
      ∧ WrittenOut (petContent (petOperation [] petRef)) (petOperation [] petRef)
        (petOperation [] petBody)
      ∧ bodyTypes (petContent (petOperation [] petRef)) = some [some "application/json"]
      ∧ extract (upgrade ⟨.swagger2, withOperation (petContent (petOperation [] petRef)) "/pets"
          (petItem (petOperation [] petRef)) "post" (petOperation [] petBody)⟩)
        = extract (upgrade ⟨.swagger2, petContent (petOperation [] petRef)⟩) := by
  have hplain : SharesPlainly (petContent (petOperation [] petRef)) :=
    ⟨by decide, by decide, by decide, by decide, by decide, by decide⟩
  have hshared : Fields.get?
        (Fields.fieldsAt (petContent (petOperation [] petRef)) "parameters") "Pet"
      = some (.mapping petBody) := by decide
  have hout : WrittenOut (petContent (petOperation [] petRef)) (petOperation [] petRef)
      (petOperation [] petBody) :=
    @WrittenOut.parameter (petContent (petOperation [] petRef)) (petOperation [] petRef) [] [] petRef
      petBody "Pet" rfl rfl hshared ⟨by decide, by decide⟩ (by decide)
  exact ⟨hplain, hout, by decide +kernel,
    extract_upgrade_withOperation hplain rfl (by decide) (by decide) (by decide) hout⟩

/-- **A shared body does not have the media types of the operation** that refers to it; a copy has. -/
theorem bodyTypes_petContent :
    bodyTypes (petContent (petOperation [.string "application/xml"] petRef))
        = some [some "application/json"]
      ∧ bodyTypes (withOperation (petContent (petOperation [.string "application/xml"] petRef))
          "/pets" (petItem (petOperation [.string "application/xml"] petRef)) "post"
          (petOperation [.string "application/xml"] petBody)) = some [some "application/xml"] := by
  decide +kernel

end ApiClientGen.Extraction
