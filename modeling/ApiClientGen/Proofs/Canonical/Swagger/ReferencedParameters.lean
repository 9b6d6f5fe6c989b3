/-
References to parameters of version 2.

An entry in a list of parameters may refer to a parameter of the whole description.  What follows
the beginning of such a reference is looked up as it is written, so it finds a parameter whose
name is written the same way, and that parameter becomes part of the operation: it stays a
parameter, is a field of the form, or is the body.  Pointers are not followed for it.  A name with
marks for other characters finds nothing, and its entry is left out; a reference to another place
of the description counts as a parameter without name and place, of which only the last one stays.
-/
import ApiClientGen.Proofs.Canonical.Swagger.ParameterObjects
import ApiClientGen.Reference.Node

namespace ApiClientGen.Canonical.Swagger

open ApiClientGen.Document ApiClientGen.Reference ApiClientGen.Source ApiClientGen.Text

/-! ### Entries that nothing replaces -/

section

variable {shared : Fields Value} {written target : Fields Value} {name ref : String} {e : Entry}
  {v : Value} {before after : List Value}

/-- No later entry has the name and the place of an entry. -/
def IsLast (shared : Fields Value) (after : List Value) (e : Entry) : Prop :=
  ∀ v ∈ after, ∀ f ∈ Entry.ofValue? shared v, f.key ≠ e.key

instance (shared : Fields Value) (after : List Value) (e : Entry) :
    Decidable (IsLast shared after e) :=
  inferInstanceAs (Decidable (∀ v ∈ after, ∀ f ∈ Entry.ofValue? shared v, f.key ≠ e.key))

/-- The name behind the beginning of a reference is looked up as it is written. -/
theorem ofValue?_of_shared (href : Fields.textAt? written "$ref" = some ("#/parameters/" ++ name))
    (hshared : Fields.get? shared name = some (.mapping target)) :
    Entry.ofValue? shared (.mapping written) = some ⟨written, target⟩ := by
  have hname : textAfter? parameterRefStart ("#/parameters/" ++ name) = some name :=
    textAfter?_eq_some.mpr rfl
  rw [Entry.ofValue?, href, Option.bind_some]
  simp only [hname, hshared]

theorem ofValue?_of_unknown (href : Fields.textAt? written "$ref" = some ("#/parameters/" ++ name))
    (hunknown : ∀ target, Fields.get? shared name ≠ some (.mapping target)) :
    Entry.ofValue? shared (.mapping written) = none := by
  have hname : textAfter? parameterRefStart ("#/parameters/" ++ name) = some name :=
    textAfter?_eq_some.mpr rfl
  rw [Entry.ofValue?, href, Option.bind_some]
  simp only [hname]

theorem ofValue?_of_elsewhere (href : Fields.textAt? written "$ref" = some ref)
    (helsewhere : textAfter? parameterRefStart ref = none) :
    Entry.ofValue? shared (.mapping written) = some ⟨written, written⟩ := by
  rw [Entry.ofValue?, href, Option.bind_some]
  simp only [helsewhere]

theorem mem_effectiveEntries {ofPath ofOperation : List Value}
    (hlist : ofPath ++ ofOperation = before ++ v :: after) (he : Entry.ofValue? shared v = some e)
    (hlast : IsLast shared after e) : e ∈ effectiveEntries shared ofPath ofOperation := by
  rw [effectiveEntries_eq_latest, hlist, List.filterMap_append, List.filterMap_cons_some he]
  refine mem_latest_of_last fun f hf => ?_
  obtain ⟨w, hw, hfound⟩ := List.mem_filterMap.mp hf
  exact hlast w hw f hfound

/-- The entries that count are those of the others if one is replaced. -/
theorem effectiveEntries_perm {ofPath ofOperation : List Value}
    (hlist : ofPath ++ ofOperation = before ++ v :: after) (he : Entry.ofValue? shared v = some e)
    (hreplaced : ¬ IsLast shared after e) :
    (effectiveEntries shared ofPath ofOperation).Perm (effectiveEntries shared before after) := by
  rw [effectiveEntries_eq_latest, effectiveEntries_eq_latest, hlist, List.filterMap_append,
    List.filterMap_append, List.filterMap_cons_some he]
  refine latest_perm_of_replaced ?_
  simp only [IsLast, not_forall, not_not] at hreplaced
  obtain ⟨w, hw, f, hf, hkey⟩ := hreplaced
  exact ⟨f, List.mem_filterMap.mpr ⟨w, hw, hf⟩, hkey⟩

/-- The entries that count are those of the others if there is nothing behind one. -/
theorem effectiveEntries_of_none {ofPath ofOperation : List Value}
    (hlist : ofPath ++ ofOperation = before ++ v :: after) (hnone : Entry.ofValue? shared v = none) :
    effectiveEntries shared ofPath ofOperation = effectiveEntries shared before after := by
  rw [effectiveEntries, effectiveEntries, writtenEntries, writtenEntries, hlist,
    List.filterMap_append, List.filterMap_append, List.filterMap_cons_none hnone]

theorem nodup_map_key_effectiveEntries (ofPath ofOperation : List Value) :
    ((effectiveEntries shared ofPath ofOperation).map Entry.key).Nodup := by
  rw [effectiveEntries_eq_latest]
  exact nodup_map_latest Entry.key _

end

/-! ### The fields of a form -/

/-- A body whose only content has a schema with a property. -/
def HasProperty (body : Fields Value) (name : String) (property : Value) : Prop :=
  ∃ mediaType schema,
    Fields.get? body "content"
        = some (.mapping [(mediaType, .mapping [("schema", .mapping schema)])])
      ∧ Fields.get? (Fields.fieldsAt schema "properties") name = some property

/-- Fields of a form with different names and places have different names. -/
theorem nodup_keys_namedFields {entries : List Entry} (h : (entries.map Entry.key).Nodup) :
    (Fields.keys (namedFields
      ((entries.filter (Entry.isAt "formData")).map Entry.resolved))).Nodup := by
  have hsublist : ∀ entries : List Entry,
      ((Fields.keys (namedFields ((entries.filter (Entry.isAt "formData")).map
        Entry.resolved))).map fun name => (name, "formData")).Sublist (entries.map Entry.key) := by
    intro entries
    induction entries with
    | nil => exact List.Sublist.refl _
    | cons e rest ih =>
        by_cases hat : e.isAt "formData" = true
        · rw [List.filter_cons_of_pos hat, List.map_cons, namedFields, List.filterMap_cons]
          cases hname : Fields.textAt? e.resolved "name" with
          | none => exact ih.cons e.key
          | some name =>
              have hplace : Fields.get? e.resolved "in" = some (.string "formData") :=
                of_decide_eq_true hat
              have hkey : e.key = (name, "formData") := by
                rw [Entry.key, Fields.get?_of_textAt? hname, hplace]
                rfl
              rw [List.map_cons, hkey]
              exact ih.cons_cons _
        · rw [List.filter_cons_of_neg hat]
          exact ih.cons e.key
  exact ((hsublist entries).nodup h).of_map _

/-- A field of a form that has a name is a property of the form's schema. -/
theorem hasProperty_formOf {form : List (Fields Value)} {fields : Fields Value} {name : String}
    (hnodup : (Fields.keys (namedFields form)).Nodup) (hmem : fields ∈ form)
    (hname : Fields.textAt? fields "name" = some name) (consumes : List String) :
    HasProperty (canonicalRefFields (formOf form consumes)) name
      (canonicalRefs (formProperty fields)) := by
  have hnamed : (name, fields) ∈ namedFields form :=
    List.mem_filterMap.mpr ⟨fields, hmem, by rw [hname, Option.map_some]⟩
  have hproperties : Fields.get? (Fields.ofEntries ((namedFields form).map fun p =>
      (p.1, formProperty p.2))) name = some (formProperty fields) := by
    have hkeys : (Fields.keys ((namedFields form).map fun p => (p.1, formProperty p.2))).Nodup := by
      rw [Fields.keys, List.map_map]
      exact hnodup
    rw [Fields.ofEntries_eq_self hkeys]
    exact Fields.get?_of_mem hkeys (List.mem_map.mpr ⟨_, hnamed, rfl⟩)
  have hcontent : ∃ mediaType required, Fields.get? (formOf form consumes) "content"
      = some (.mapping [(mediaType, .mapping [("schema", .mapping
        ([("type", .string "object"), ("properties", .mapping (Fields.ofEntries
          ((namedFields form).map fun p => (p.1, formProperty p.2))))] ++ required))])]) :=
    ⟨_, _, rfl⟩
  obtain ⟨mediaType, required, hcontent⟩ := hcontent
  rw [HasProperty, get?_canonicalRefFields, hcontent]
  refine ⟨mediaType, canonicalRefFields _, rfl, ?_⟩
  have hfields : Fields.fieldsAt ([("type", Value.string "object"), ("properties", .mapping
      (Fields.ofEntries ((namedFields form).map fun p => (p.1, formProperty p.2))))] ++ required)
        "properties" = Fields.ofEntries ((namedFields form).map fun p => (p.1, formProperty p.2)) := rfl
  rw [fieldsAt_canonicalRefFields, get?_canonicalRefFields, hfields, hproperties]
  rfl

/-! ### Converted operations -/

section

variable {content item operation written target : Fields Value} {name ref : String}
  {before after : List Value}

/-- An operation without one entry of its parameters. -/
theorem convertOperation_of_effectiveEntries {ofPath : List Value}
    (h : effectiveEntries (Fields.fieldsAt content "parameters") ofPath
        (Fields.itemsAt operation "parameters")
      = effectiveEntries (Fields.fieldsAt content "parameters") before after) :
    convertOperation content ofPath operation
      = convertOperation content before (Fields.set operation "parameters" (.list after)) := by
  unfold convertOperation
  dsimp only
  rw [Fields.select_set (by decide), extensions_set (by decide), h,
    Fields.itemsAt_of_get? (Fields.get?_set_self _ _ _),
    Fields.itemsAt_set_of_ne (by decide : "parameters" ≠ "consumes"),
    Fields.itemsAt_set_of_ne (by decide : "parameters" ≠ "produces"),
    Fields.fieldsAt_set_of_ne (by decide : "parameters" ≠ "responses")]

/-- No field of a form and no other body stands among some entries. -/
def IsOnlyBody (shared : Fields Value) (entries : List Value) (e : Entry) : Prop :=
  ∀ v ∈ entries, ∀ f ∈ Entry.ofValue? shared v,
    f.isAt "formData" = false ∧ (f.isAt "body" = true → f.key = e.key)

instance (shared : Fields Value) (entries : List Value) (e : Entry) :
    Decidable (IsOnlyBody shared entries e) :=
  inferInstanceAs (Decidable (∀ v ∈ entries, ∀ f ∈ Entry.ofValue? shared v,
    f.isAt "formData" = false ∧ (f.isAt "body" = true → f.key = e.key)))

theorem requestBody?_of_isOnlyBody {entries : List Entry} {e : Entry}
    (hnodup : (entries.map Entry.key).Nodup) (he : e ∈ entries) (hbody : e.isAt "body" = true)
    (honly : ∀ f ∈ entries, f.isAt "formData" = false ∧ (f.isAt "body" = true → f.key = e.key))
    (consumes : List String) : requestBody? consumes entries = some (bodyOfEntry consumes e) := by
  have hform : entries.filter (Entry.isAt "formData") = [] :=
    List.filter_eq_nil_iff.mpr fun f hf => by rw [(honly f hf).1]; exact Bool.false_ne_true
  have hinj : ∀ f ∈ entries, f.key = e.key → f = e := fun f hf =>
    List.inj_on_of_nodup_map hnodup hf he
  have hlast : (entries.filter (Entry.isAt "body")).getLast? = some e := by
    have hne : entries.filter (Entry.isAt "body") ≠ [] :=
      List.ne_nil_of_mem (List.mem_filter.mpr ⟨he, hbody⟩)
    obtain ⟨hmem, hat⟩ := List.mem_filter.mp (List.getLast_mem hne)
    rw [List.getLast?_eq_some_getLast hne, hinj _ hmem ((honly _ hmem).2 hat)]
  rw [requestBody?, hform, List.map_nil]
  simp [hlast]

theorem get?_requestBody_convertOperation {body : Fields Value}
    (h : requestBody? (typesOf content operation "consumes") (entriesOf content item operation)
      = some body) :
    Fields.get? (convertOperation content (Fields.itemsAt item "parameters") operation) "requestBody"
      = some (.mapping body) := by
  rw [get?_convertOperation content item operation (by decide) (by decide), h]
  rfl

/-- An entry that stays a parameter and is a reference stands as one among the parameters. -/
theorem mem_parameters_convertOperation {e : Entry} (he : e ∈ entriesOf content item operation)
    (hplain : e.isPlain = true) (href : Fields.textAt? e.written "$ref" = some ref) :
    .mapping [("$ref", .string (canonicalRef ref))] ∈ Fields.itemsAt (canonicalRefFields
      (convertOperation content (Fields.itemsAt item "parameters") operation)) "parameters" := by
  have hwritten : convertParameter e.written = [("$ref", .string ref)] := by
    rw [convertParameter, Fields.get?_of_textAt? href]
  rw [itemsAt_canonicalRefFields, itemsAt_convertOperation, canonicalRefItems_eq_map]
  refine List.mem_map.mpr ⟨.mapping (convertParameter e.written), ?_, ?_⟩
  · exact List.mem_map.mpr ⟨e, List.mem_filter.mpr ⟨he, hplain⟩, rfl⟩
  · rw [hwritten, canonicalRefs, canonicalRefFields, canonicalRefFields, canonicalRefAt, if_pos rfl]

/-- An entry that is the only body among the others is so among the entries that count. -/
theorem forall_entriesOf_of_isOnlyBody {e : Entry} {v : Value}
    (hlist : Fields.itemsAt item "parameters" ++ Fields.itemsAt operation "parameters"
      = before ++ v :: after)
    (he : Entry.ofValue? (Fields.fieldsAt content "parameters") v = some e)
    (hbody : e.isAt "body" = true)
    (honly : IsOnlyBody (Fields.fieldsAt content "parameters") (before ++ after) e) :
    ∀ f ∈ entriesOf content item operation,
      f.isAt "formData" = false ∧ (f.isAt "body" = true → f.key = e.key) := by
  intro f hf
  obtain ⟨w, hw, hfound⟩ := exists_of_mem_effectiveEntries hf
  rw [hlist] at hw
  rcases List.mem_append.mp hw with hw | hw
  · exact honly w (List.mem_append_left _ hw) f hfound
  · rcases List.mem_cons.mp hw with rfl | hw
    · obtain rfl := Option.some.inj (he.symm.trans hfound)
      have hplace : Fields.get? e.resolved "in" = some (.string "body") := of_decide_eq_true hbody
      exact ⟨by simp [Entry.isAt, hplace], fun _ => rfl⟩
    · exact honly w (List.mem_append_right _ hw) f hfound

/-- The reference to the only body becomes one to the component that the body has become. -/
theorem get?_requestBody_of_ref {e : Entry} (he : e ∈ entriesOf content item operation)
    (hbody : e.isAt "body" = true)
    (honly : ∀ f ∈ entriesOf content item operation,
      f.isAt "formData" = false ∧ (f.isAt "body" = true → f.key = e.key))
    (href : Fields.textAt? e.written "$ref" = some ("#/parameters/" ++ name)) :
    Fields.get? (canonicalRefFields (convertOperation content (Fields.itemsAt item "parameters")
        operation)) "requestBody"
      = some (.mapping [("$ref", .string ("#/components/requestBodies/" ++ name))]) := by
  have hrequest := requestBody?_of_isOnlyBody (nodup_map_key_effectiveEntries _ _) he hbody honly
    (typesOf content operation "consumes")
  have hcanonical := canonicalRef_bodyRef ("#/parameters/" ++ name)
  rw [bodyRef_append] at hcanonical
  rw [get?_canonicalRefFields, get?_requestBody_convertOperation hrequest,
    bodyOfEntry_of_ref href, bodyRef_append, Option.map_some, canonicalRefAt, canonicalRefFields,
    canonicalRefFields, canonicalRefAt, if_pos rfl, hcanonical]
  rfl

/-- A field of a form that counts is a property of the schema of the body. -/
theorem hasProperty_of_mem_entriesOf {e : Entry} {own : String}
    (he : e ∈ entriesOf content item operation) (hform : e.isAt "formData" = true)
    (hown : Fields.textAt? e.resolved "name" = some own) :
    HasProperty (Fields.fieldsAt (canonicalRefFields (convertOperation content
        (Fields.itemsAt item "parameters") operation)) "requestBody") own
      (canonicalRefs (formProperty e.resolved)) := by
  have hfield : e.resolved ∈ ((entriesOf content item operation).filter
      (Entry.isAt "formData")).map Entry.resolved :=
    List.mem_map.mpr ⟨e, List.mem_filter.mpr ⟨he, hform⟩, rfl⟩
  rw [fieldsAt_canonicalRefFields, fieldsAt_convertOperation, requestBody?,
    List.isEmpty_eq_false_iff.mpr (List.ne_nil_of_mem hfield)]
  exact hasProperty_formOf (nodup_keys_namedFields (nodup_map_key_effectiveEntries _ _)) hfield
    hown _

/-- A component of a converted description is one of the canonical form. -/
theorem mem_components_upgrade {part : String} {fields : Fields Value}
    (h : (name, Value.mapping fields) ∈ Fields.fieldsAt (components content) part) :
    (name, canonicalRefs (.mapping fields)) ∈ Fields.fieldsAt
      (Fields.fieldsAt (upgrade ⟨.swagger2, content⟩).fields "components") part := by
  rw [fieldsAt_upgrade_components, fieldsAt_canonicalRefFields, canonicalRefFields_eq_map]
  exact List.mem_map.mpr ⟨_, h, rfl⟩

end

/--
**How an operation of the canonical form has a parameter of the whole description**, by its place:
a reference leads to the component that it has become, or a form has it as a property.
-/
structure HasShared (canonical converted : Fields Value) (name : String) (target : Fields Value)
    (consumes : List String) (isOnlyBody : Prop) : Prop where
  parameter : isAt "body" target = false → isAt "formData" target = false →
    .mapping [("$ref", .string ("#/components/parameters/" ++ name))]
        ∈ Fields.itemsAt converted "parameters"
      ∧ (name, canonicalRefs (.mapping (convertParameter target)))
        ∈ Fields.fieldsAt (Fields.fieldsAt canonical "components") "parameters"
  field : isAt "formData" target = true → ∀ own, Fields.textAt? target "name" = some own →
    HasProperty (Fields.fieldsAt converted "requestBody") own (canonicalRefs (formProperty target))
  body : isAt "body" target = true → isOnlyBody →
    Fields.get? converted "requestBody"
        = some (.mapping [("$ref", .string ("#/components/requestBodies/" ++ name))])
      ∧ (name, canonicalRefs (.mapping (bodyOf target consumes)))
        ∈ Fields.fieldsAt (Fields.fieldsAt canonical "components") "requestBodies"

theorem hasShared_of_isLast {content item operation written target : Fields Value} {name : String}
    {before after : List Value}
    (hlist : Fields.itemsAt item "parameters" ++ Fields.itemsAt operation "parameters"
      = before ++ .mapping written :: after)
    (href : Fields.textAt? written "$ref" = some ("#/parameters/" ++ name))
    (hshared : Fields.get? (Fields.fieldsAt content "parameters") name = some (.mapping target))
    (hlast : IsLast (Fields.fieldsAt content "parameters") after ⟨written, target⟩) :
    HasShared (upgrade ⟨.swagger2, content⟩).fields
      (canonicalRefFields (convertOperation content (Fields.itemsAt item "parameters") operation))
      name target (effectiveMediaTypes (Fields.itemsAt content "consumes") [])
      (IsOnlyBody (Fields.fieldsAt content "parameters") (before ++ after) ⟨written, target⟩) := by
  have hof := ofValue?_of_shared href hshared
  have he : (⟨written, target⟩ : Entry) ∈ entriesOf content item operation :=
    mem_effectiveEntries hlist hof hlast
  have hmem := Fields.mem_of_get? hshared
  constructor
  case parameter =>
    intro hbody hform
    have hplain : Entry.isPlain ⟨written, target⟩ = true := by
      have hnobody : Entry.isAt "body" ⟨written, target⟩ = false := hbody
      have hnoform : Entry.isAt "formData" ⟨written, target⟩ = false := hform
      rw [Entry.isPlain, hnobody, hnoform]
      rfl
    have hparameter := mem_parameters_convertOperation he hplain href
    rw [canonicalRef_parameters] at hparameter
    exact ⟨hparameter, mem_components_upgrade (mem_components_parameters hmem hbody hform)⟩
  case field =>
    intro hform own hown
    exact hasProperty_of_mem_entriesOf he hform hown
  case body =>
    intro hbody honly
    have hothers := forall_entriesOf_of_isOnlyBody hlist hof hbody honly
    exact ⟨get?_requestBody_of_ref he hbody hothers href,
      mem_components_upgrade (mem_components_requestBodies hmem hbody)⟩

/-! ### References of an operation -/

/-- The value that the pointer of a reference leads to in a description, part by part. -/
def pointed? (content : Fields Value) (ref : String) : Option Value :=
  (textAfter? "#" ref).bind fun pointer =>
    ((pointerParts pointer).foldlM Node.part? (Node.root (.mapping content))).map Node.value

/-- The pointer to a parameter with a plain name is the name behind the beginning. -/
theorem pointed?_parameters {content shared : Fields Value} {name : String}
    (hshared : Fields.get? content "parameters" = some (.mapping shared)) (hname : IsPlainName name) :
    pointed? content ("#/parameters/" ++ name) = Fields.get? shared name := by
  have htext : textAfter? "#" ("#/parameters/" ++ name) = some ("/parameters/" ++ name) := by
    refine textAfter?_eq_some.mpr ?_
    apply String.toList_injective
    simp
  have hlist : ("/parameters/" ++ name).toList
      = '/' :: ("parameters".toList ++ '/' :: name.toList) := by simp
  have hparts : pointerParts ("/parameters/" ++ name) = ["parameters", name] := by
    have hplain : IsPlainName "parameters" := by decide
    have hne : "/parameters/" ++ name ≠ "" := fun h => by
      have hnil := congrArg String.toList h
      rw [hlist] at hnil
      exact nomatch hnil
    have hdrop : ("parameters".toList ++ '/' :: name.toList).dropWhile (· == '/')
        = "parameters".toList ++ '/' :: name.toList := rfl
    rw [pointerParts_of_no_percent hne (by simp [hlist, hname.percent]), hlist,
      List.dropWhile_cons_of_pos (by rfl), hdrop, splitOn_append_cons hplain.slash,
      splitOn_of_notMem hname.slash, List.map_cons, List.map_singleton,
      unescaped_eq_self hplain.tilde, unescaped_eq_self hname.tilde, String.ofList_toList,
      String.ofList_toList]
  rw [pointed?, htext, Option.bind_some, hparts]
  simp [Node.part?, Node.root, Node.field?, Value.asFields, hshared, Function.comp_def]

/--
A reference among the parameters that an operation has from its path and of its own, with the
entries before and behind it.
-/
structure IsReferenceAt (content : Fields Value) (path method : String)
    (item operation : Fields Value)
    (before : List Value) (written : Fields Value) (ref : String) (after : List Value) : Prop where
  path_item : Fields.get? (Fields.fieldsAt content "paths") path = some (.mapping item)
  method_mem : method ∈ methods
  own_operation : Fields.get? item method = some (.mapping operation)
  list : Fields.itemsAt item "parameters" ++ Fields.itemsAt operation "parameters"
    = before ++ .mapping written :: after
  ref : Fields.textAt? written "$ref" = some ref

end ApiClientGen.Canonical.Swagger

namespace ApiClientGen.Canonical

open ApiClientGen.Document ApiClientGen.Reference ApiClientGen.Source ApiClientGen.Text Swagger

variable {content item operation written : Fields Value} {path method ref : String}
  {before after : List Value}

/--
**What becomes of a reference among the parameters of an operation.**  One by a name that a
parameter of the whole description has as it is written brings this parameter into the operation,
unless a later entry replaces it; for plain names that is the parameter that its pointer leads to.
Any other name is left out.  A reference to another place is an entry by its own name and place:
it stays if nothing replaces it, and is gone otherwise.
-/
theorem references_upgrade_swagger2
    (h : IsReferenceAt content path method item operation before written ref after) :
    ∃ item' converted,
      Fields.get? (Fields.fieldsAt (upgrade ⟨.swagger2, content⟩).fields "paths") path
          = some (.mapping item')
        ∧ Fields.get? item' method = some (.mapping converted)
        ∧ (∀ name, ref = "#/parameters/" ++ name →
          (∀ shared, Fields.get? content "parameters" = some (.mapping shared) → IsPlainName name →
            pointed? content ref = Fields.get? shared name)
          ∧ (∀ target, Fields.get? (Fields.fieldsAt content "parameters") name
              = some (.mapping target) →
            IsLast (Fields.fieldsAt content "parameters") after ⟨written, target⟩ →
              HasShared (upgrade ⟨.swagger2, content⟩).fields converted name target
                (effectiveMediaTypes (Fields.itemsAt content "consumes") [])
                (IsOnlyBody (Fields.fieldsAt content "parameters") (before ++ after)
                  ⟨written, target⟩))
          ∧ ((∀ target, Fields.get? (Fields.fieldsAt content "parameters") name
              ≠ some (.mapping target)) →
            converted = canonicalRefFields (convertOperation content before
              (Fields.set operation "parameters" (.list after)))))
        ∧ (textAfter? parameterRefStart ref = none → Entry.isPlain ⟨written, written⟩ = true →
          (IsLast (Fields.fieldsAt content "parameters") after ⟨written, written⟩ →
            .mapping [("$ref", .string (canonicalRef ref))] ∈ Fields.itemsAt converted "parameters")
          ∧ (¬ IsLast (Fields.fieldsAt content "parameters") after ⟨written, written⟩ →
            (entriesOf content item operation).Perm
              (effectiveEntries (Fields.fieldsAt content "parameters") before after))) := by
  refine ⟨canonicalRefFields (convertPathItem content item), canonicalRefFields
    (convertOperation content (Fields.itemsAt item "parameters") operation), ?_, ?_, ?_, ?_⟩
  · rw [fieldsAt_upgrade_paths, get?_canonicalRefFields, get?_paths h.path_item]
    rfl
  · rw [get?_canonicalRefFields, get?_convertPathItem h.method_mem h.own_operation]
    rfl
  · rintro name rfl
    refine ⟨fun shared hshared hname => pointed?_parameters hshared hname,
      fun target htarget hlast => hasShared_of_isLast h.list h.ref htarget hlast,
      fun hunknown => ?_⟩
    rw [convertOperation_of_effectiveEntries
      (effectiveEntries_of_none h.list (ofValue?_of_unknown h.ref hunknown))]
  · intro helsewhere hplain
    have hof : Entry.ofValue? (Fields.fieldsAt content "parameters") (.mapping written)
        = some ⟨written, written⟩ := ofValue?_of_elsewhere h.ref helsewhere
    exact ⟨fun hlast => mem_parameters_convertOperation (mem_effectiveEntries h.list hof hlast)
      hplain h.ref, effectiveEntries_perm h.list hof⟩

/-- The operation that creates a pet in the description with shared parameters. -/
def createOperation : Fields Value :=
  [("parameters", .list [.mapping [("$ref", .string "#/parameters/Kind")]]),
    ("responses", .mapping [("410", .mapping [("$ref", .string "#/responses/Gone")])])]

theorem references_sharingContent :
    IsReferenceAt sharingContent "/pets" "post"
        [("parameters", .list [.mapping [("$ref", .string "#/parameters/Limit")]]),
          ("post", .mapping createOperation)]
        createOperation [] [("$ref", .string "#/parameters/Limit")] "#/parameters/Limit"
        [.mapping [("$ref", .string "#/parameters/Kind")]]
      ∧ ∃ item' converted,
        Fields.get? (Fields.fieldsAt (upgrade ⟨.swagger2, sharingContent⟩).fields "paths") "/pets"
            = some (.mapping item')
          ∧ Fields.get? item' "post" = some (.mapping converted)
          ∧ .mapping [("$ref", .string "#/components/parameters/Limit")]
            ∈ Fields.itemsAt converted "parameters" := by
  have h : IsReferenceAt sharingContent "/pets" "post"
      [("parameters", .list [.mapping [("$ref", .string "#/parameters/Limit")]]),
        ("post", .mapping createOperation)]
      createOperation [] [("$ref", .string "#/parameters/Limit")] "#/parameters/Limit"
      [.mapping [("$ref", .string "#/parameters/Kind")]] :=
    ⟨by decide, by decide, by decide, by decide, by decide⟩
  obtain ⟨item', converted, hitem, hconverted, hnamed, -⟩ := references_upgrade_swagger2 h
  refine ⟨h, item', converted, hitem, hconverted, ?_⟩
  obtain ⟨-, hshared, -⟩ := hnamed "Limit" rfl
  have hrepresented :=
    hshared [("name", .string "limit"), ("in", .string "query")] (by decide) (by decide)
  exact (hrepresented.parameter (by decide) (by decide)).1

/-- A parameter whose name is a path of its own, and an operation that refers to it by a pointer. -/
def pagedContent : Fields Value :=
  [("swagger", .string "2.0"),
    ("parameters", .mapping
      [("page/size", .mapping
        [("name", .string "size"), ("in", .string "query"), ("type", .string "integer")])]),
    ("paths", .mapping
      [("/pets", .mapping
        [("get", .mapping
          [("parameters", .list [.mapping [("$ref", .string "#/parameters/page~1size")]]),
            ("responses", .mapping [])])])])]

/-- **A parameter is lost** if the reference to it has marks for characters of its name. -/
theorem no_parameters_pagedContent :
    pointed? pagedContent "#/parameters/page~1size"
        = some (.mapping
          [("name", .string "size"), ("in", .string "query"), ("type", .string "integer")])
      ∧ Fields.fieldsAt (upgrade ⟨.swagger2, pagedContent⟩).fields "paths"
        = [("/pets", .mapping [("get", .mapping [("responses", .mapping [])])])]
      ∧ ¬ ∀ content path method item operation before written ref after target item' converted,
        IsReferenceAt content path method item operation before written ref after →
        pointed? content ref = some (.mapping target) →
        isAt "body" target = false → isAt "formData" target = false →
        IsLast (Fields.fieldsAt content "parameters") after ⟨written, target⟩ →
        Fields.get? (Fields.fieldsAt (upgrade ⟨.swagger2, content⟩).fields "paths") path
            = some (.mapping item') →
        Fields.get? item' method = some (.mapping converted) →
          Fields.itemsAt converted "parameters" ≠ [] := by
  have hpointed : pointed? pagedContent "#/parameters/page~1size"
      = some (.mapping
        [("name", .string "size"), ("in", .string "query"), ("type", .string "integer")]) := by
    decide +kernel
  have hpaths : Fields.fieldsAt (upgrade ⟨.swagger2, pagedContent⟩).fields "paths"
      = [("/pets", .mapping [("get", .mapping [("responses", .mapping [])])])] := by
    decide +kernel
  refine ⟨hpointed, hpaths, fun h => ?_⟩
  refine h pagedContent "/pets" "get" _ _ [] [("$ref", .string "#/parameters/page~1size")] _ []
    [("name", .string "size"), ("in", .string "query"), ("type", .string "integer")]
    [("get", .mapping [("responses", .mapping [])])] [("responses", .mapping [])]
    ⟨rfl, by decide, rfl, rfl, rfl⟩ hpointed (by decide) (by decide) (by decide) ?_ rfl rfl
  rw [hpaths]
  rfl

end ApiClientGen.Canonical
