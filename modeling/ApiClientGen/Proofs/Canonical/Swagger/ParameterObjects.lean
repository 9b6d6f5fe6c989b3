/-
Parameters of version 2 that replace each other.

A parameter object has a name and a place, and an entry in a list of parameters has one itself or
refers to one of the whole description.  An operation takes the entries of its path over, and of
several entries for one name and place the last one counts, where the first one stands.  What
becomes of them is said here without a look at how entries are put together: the entries that
count are those for the latest of all parameter objects, and a form has the latest of its fields.
-/
import ApiClientGen.Proofs.Canonical.Swagger.Sharing

namespace ApiClientGen.Canonical.Swagger

open ApiClientGen.Document ApiClientGen.Reference ApiClientGen.Source ApiClientGen.Text

/-- The places of parameters that stay parameters. -/
def plainPlaces : List String := ["path", "query", "header", "cookie"]

/-- **A parameter object of version 2**: it is no reference, and has a name and a place. -/
structure ParameterObject where
  fields : Fields Value
  name : String
  place : String
  no_ref : Fields.get? fields "$ref" = none
  named : Fields.get? fields "name" = some (.string name)
  name_ne : name ≠ ""
  placed : Fields.get? fields "in" = some (.string place)
  place_mem : place ∈ plainPlaces ++ ["formData", "body"]

namespace ParameterObject

/-- What a parameter replaces another one by. -/
def key (p : ParameterObject) : String × String := (p.name, p.place)

/-- Whether the parameter is neither a body nor a field of a form. -/
def isPlain (p : ParameterObject) : Bool := p.place ∈ plainPlaces

/-- Whether the parameter is a field of a form. -/
def isField (p : ParameterObject) : Bool := p.place = "formData"

theorem filter_isPlain_latest (all : List ParameterObject) :
    (latest key all).filter isPlain = latest key (all.filter isPlain) :=
  filter_latest key (fun k => decide (k.2 ∈ plainPlaces)) all

theorem filter_isField_latest (all : List ParameterObject) :
    (latest key all).filter isField = latest key (all.filter isField) :=
  filter_latest key (fun k => decide (k.2 = "formData")) all

end ParameterObject

/--
What an entry in a list of parameters stands for: the parameter object that it is, or the one of
the whole description that it refers to by a name of letters that references have as they are.
-/
inductive StandsFor (shared : Fields Value) : Value → ParameterObject → Prop where
  | inline (p : ParameterObject) : StandsFor shared (.mapping p.fields) p
  | shared {written : Fields Value} {name : String} {p : ParameterObject}
      (ref : Fields.textAt? written "$ref" = some ("#/parameters/" ++ name))
      (name_plain : IsPlainName name) (name_without : IsWithout refMarks name)
      (entry : Fields.get? shared name = some (.mapping p.fields)) :
      StandsFor shared (.mapping written) p

/-- An entry for a parameter object. -/
structure Entry.IsFor (shared : Fields Value) (e : Entry) (p : ParameterObject) : Prop where
  resolved : e.resolved = p.fields
  written : StandsFor shared (.mapping e.written) p

section

variable {shared : Fields Value} {v : Value} {e : Entry} {p : ParameterObject}

/-- What stands for a parameter object is read as an entry for it. -/
theorem StandsFor.exists_ofValue? (h : StandsFor shared v p) :
    ∃ e, Entry.ofValue? shared v = some e ∧ e.IsFor shared p := by
  cases h with
  | inline p =>
      have hnone : Fields.textAt? p.fields "$ref" = none := by rw [Fields.textAt?, p.no_ref]; rfl
      refine ⟨⟨p.fields, p.fields⟩, ?_, rfl, .inline p⟩
      rw [Entry.ofValue?, hnone]
      rfl
  | @shared written name p ref hplain hwithout hentry =>
      have hname : textAfter? parameterRefStart ("#/parameters/" ++ name) = some name :=
        textAfter?_eq_some.mpr rfl
      refine ⟨⟨written, p.fields⟩, ?_, rfl, .shared ref hplain hwithout hentry⟩
      rw [Entry.ofValue?, ref]
      simp only [Option.bind_some, hname, hentry]

theorem Entry.IsFor.key (h : e.IsFor shared p) : e.key = p.key := by
  rw [Entry.key, h.resolved, p.named, p.placed]
  rfl

theorem Entry.IsFor.isAt (h : e.IsFor shared p) (place : String) :
    e.isAt place = decide (p.place = place) := by
  simp [Entry.isAt, h.resolved, p.placed]

theorem Entry.IsFor.isPlain (h : e.IsFor shared p) : e.isPlain = p.isPlain := by
  have hmem := p.place_mem
  simp only [plainPlaces, List.cons_append, List.nil_append, List.mem_cons, List.not_mem_nil,
    or_false] at hmem
  rw [Entry.isPlain, h.isAt, h.isAt, ParameterObject.isPlain]
  rcases hmem with hp | hp | hp | hp | hp | hp <;> simp [hp, plainPlaces]

/-- **The entries that count** are those for the latest parameter objects. -/
theorem forall₂_effectiveEntries {ofPath ofOperation : List Value} {all : List ParameterObject}
    (h : List.Forall₂ (StandsFor shared) (ofPath ++ ofOperation) all) :
    List.Forall₂ (Entry.IsFor shared) (effectiveEntries shared ofPath ofOperation)
      (latest ParameterObject.key all) := by
  have hentries : ∀ {vs : List Value} {all : List ParameterObject},
      List.Forall₂ (StandsFor shared) vs all →
        List.Forall₂ (Entry.IsFor shared) (vs.filterMap (Entry.ofValue? shared)) all := by
    intro vs all h
    induction h with
    | nil => exact .nil
    | cons hfirst _ ih =>
        obtain ⟨e, he, hfor⟩ := hfirst.exists_ofValue?
        rw [List.filterMap_cons_some he]
        exact .cons hfor ih
  rw [effectiveEntries_eq_latest]
  exact forall₂_latest (fun _ _ hfor => hfor.key) (hentries h)

/-- The entries that stay parameters. -/
theorem forall₂_plainEntries {entries : List Entry} {all : List ParameterObject}
    (h : List.Forall₂ (Entry.IsFor shared) entries (latest ParameterObject.key all)) :
    List.Forall₂ (fun e p => e.IsFor shared p ∧ p.isPlain = true) (entries.filter Entry.isPlain)
      (latest ParameterObject.key (all.filter ParameterObject.isPlain)) := by
  rw [← ParameterObject.filter_isPlain_latest]
  exact (forall₂_filter h fun _ _ hfor => hfor.isPlain).imp fun _ _ h => ⟨h.1, h.1.isPlain ▸ h.2⟩

/-- The entries that are fields of a form. -/
theorem map_resolved_formEntries {entries : List Entry} {all : List ParameterObject}
    (h : List.Forall₂ (Entry.IsFor shared) entries (latest ParameterObject.key all)) :
    (entries.filter (Entry.isAt "formData")).map Entry.resolved
      = (latest ParameterObject.key (all.filter ParameterObject.isField)).map
        ParameterObject.fields := by
  rw [← ParameterObject.filter_isField_latest, ← List.forall₂_eq_eq_eq, List.forall₂_map_left_iff,
    List.forall₂_map_right_iff]
  exact (forall₂_filter h fun _ _ hfor => hfor.isAt "formData").imp fun _ _ h => h.1.resolved

end

/-! ### Forms -/

/--
The body that has a form: there is one content, and its schema has the fields as its properties,
of which it requires those that are required.
-/
def HasForm (body : Fields Value) (form : List ParameterObject) : Prop :=
  ∃ mediaType schema,
    Fields.get? body "content"
        = some (.mapping [(mediaType, .mapping [("schema", .mapping schema)])])
      ∧ Fields.keys (Fields.fieldsAt schema "properties") = form.map ParameterObject.name
      ∧ Fields.itemsAt schema "required"
        = (form.filter fun p => isRequired p.fields).map fun p => .string p.name

/-- The latest fields of a form have different names. -/
theorem nodup_map_name_latest (all : List ParameterObject) :
    ((latest ParameterObject.key (all.filter ParameterObject.isField)).map
      ParameterObject.name).Nodup := by
  have hkey : (latest ParameterObject.key (all.filter ParameterObject.isField)).map
        ParameterObject.key
      = ((latest ParameterObject.key (all.filter ParameterObject.isField)).map
        ParameterObject.name).map fun name => (name, "formData") := by
    rw [← ParameterObject.filter_isField_latest, List.map_map]
    refine List.map_congr_left fun p hp => ?_
    exact Prod.ext rfl (of_decide_eq_true (List.mem_filter.mp hp).2)
  have hnodup := nodup_map_latest ParameterObject.key (all.filter ParameterObject.isField)
  rw [hkey] at hnodup
  exact hnodup.of_map

theorem hasForm_formOf {form : List ParameterObject}
    (hnodup : (form.map ParameterObject.name).Nodup) (consumes : List String) :
    HasForm (canonicalRefFields (formOf (form.map ParameterObject.fields) consumes)) form := by
  have hnamed : namedFields (form.map ParameterObject.fields)
      = form.map fun p => (p.name, p.fields) := by
    have hname : ∀ p : ParameterObject,
        ((Fields.textAt? p.fields "name").map fun name => (name, p.fields))
          = some (p.name, p.fields) := fun p => by rw [Fields.textAt?, p.named]; rfl
    rw [namedFields, List.filterMap_map, ← List.filterMap_eq_map]
    exact List.filterMap_congr fun p _ => hname p
  have hproperties : Fields.keys (Fields.ofEntries (form.map fun p =>
      (p.name, formProperty p.fields))) = form.map ParameterObject.name := by
    have hkeys : Fields.keys (form.map fun p => (p.name, formProperty p.fields))
        = form.map ParameterObject.name := by
      rw [Fields.keys, List.map_map]
      rfl
    rw [Fields.ofEntries_eq_self (by rwa [hkeys]), hkeys]
  have hrequired : ((form.map fun p => (p.name, p.fields)).filter fun p => isRequired p.2).map
        (fun p => Value.string p.1)
      = (form.filter fun p => isRequired p.fields).map fun p => .string p.name := by
    rw [List.filter_map, List.map_map]
    rfl
  have hstrings : canonicalRefItems ((form.filter fun p => isRequired p.fields).map fun p =>
      Value.string p.name) = (form.filter fun p => isRequired p.fields).map fun p => .string p.name := by
    rw [canonicalRefItems_eq_map, List.map_map]
    rfl
  generalize hlist : (form.filter fun p => isRequired p.fields).map (fun p => Value.string p.name)
    = required at hrequired hstrings
  obtain ⟨mediaType, hcontent⟩ : ∃ mediaType,
      Fields.get? (formOf (form.map ParameterObject.fields) consumes) "content"
        = some (.mapping [(mediaType, .mapping [("schema", .mapping
          ([("type", .string "object"), ("properties", .mapping (Fields.ofEntries
            (form.map fun p => (p.name, formProperty p.fields))))]
            ++ (if required.isEmpty then [] else [("required", Value.list required)])))])]) := by
    unfold formOf
    dsimp only
    rw [hnamed, List.map_map, hrequired]
    exact ⟨_, rfl⟩
  rw [HasForm, get?_canonicalRefFields, hcontent]
  refine ⟨mediaType, canonicalRefFields _, rfl, ?_, ?_⟩
  · rw [fieldsAt_canonicalRefFields, canonicalRefFields_eq_map, Fields.keys_map canonicalRefAt]
    exact hproperties
  · rw [itemsAt_canonicalRefFields, hlist]
    cases required with
    | nil => rfl
    | cons name rest => exact hstrings

/-! ### Converted parameters -/

section

variable {fields : Fields Value} (hplain : Fields.get? fields "$ref" = none)

include hplain

/-- The fields that a parameter keeps are as they were. -/
theorem get?_convertParameter {key : String}
    (hkey : key ∈ ["name", "in", "description", "required", "allowEmptyValue"]) :
    Fields.get? (convertParameter fields) key = Fields.get? fields key := by
  have hnew : ∀ key ∈ ["name", "in", "description", "required", "allowEmptyValue"],
      isExtension key = false ∧ key ∉ ["style", "explode"] ∧ key ≠ "schema" := by decide
  obtain ⟨hext, hstyle, hschema⟩ := hnew key hkey
  rw [convertParameter, hplain]
  dsimp only
  rw [Fields.get?_update_of_notMem (notMem_keys_extensions fields hext),
    Fields.get?_update_of_notMem fun hmem => hstyle (keys_styleFields_subset fields hmem),
    Fields.get?_set_of_ne _ _ (Ne.symm hschema), Fields.get?_select, if_pos hkey]

theorem get?_schema_convertParameter :
    Fields.get? (convertParameter fields) "schema" = some (.mapping (schemaOf fields)) := by
  rw [convertParameter, hplain]
  dsimp only
  rw [Fields.get?_update_of_notMem (notMem_keys_extensions fields (by decide)),
    Fields.get?_update_of_notMem fun hmem =>
      absurd (keys_styleFields_subset fields hmem) (by decide), Fields.get?_set_self]

end

/-! ### Converted operations -/

section

variable {spec item operation : Fields Value} {path method : String}

theorem get?_paths (hpath : Fields.get? (Fields.fieldsAt spec "paths") path = some (.mapping item)) :
    Fields.get? (paths spec) path = some (.mapping (convertPathItem spec item)) := by
  unfold paths
  generalize Fields.fieldsAt spec "paths" = all at hpath
  induction all with
  | nil => cases hpath
  | cons e rest ih =>
      obtain ⟨key, v⟩ := e
      by_cases hkey : key = path
      · subst hkey
        obtain rfl : v = .mapping item := by simpa [Fields.get?] using hpath
        simp [Fields.get?]
      · have hrest := ih (by simpa [Fields.get?, hkey] using hpath)
        cases v <;> simp [Fields.get?, hkey, hrest]

/-- The paths are those of the document that have a path item. -/
theorem paths_eq_filterMap (spec : Fields Value) :
    paths spec = (Fields.fieldsAt spec "paths").filterMap fun e =>
      (match e.2 with
        | .mapping item => some item
        | _ => none).map fun item => (e.1, .mapping (convertPathItem spec item)) := by
  refine List.filterMap_congr fun e _ => ?_
  cases e.2 <;> rfl

theorem keys_paths_sublist (spec : Fields Value) :
    (Fields.keys (paths spec)).Sublist (Fields.keys (Fields.fieldsAt spec "paths")) := by
  rw [paths_eq_filterMap]
  exact Fields.keys_filterMap_sublist _ (fun item => Value.mapping (convertPathItem spec item)) _

/-- The operations of a path, before its extensions are written. -/
theorem keys_operations_sublist (spec item : Fields Value) (names : List String) :
    (Fields.keys (names.filterMap fun m =>
      match Fields.get? item m with
      | some (.mapping operation) =>
        some (m, Value.mapping (convertOperation spec (Fields.itemsAt item "parameters") operation))
      | _ => none)).Sublist names := by
  induction names with
  | nil => exact List.Sublist.refl _
  | cons m names ih =>
      rw [List.filterMap_cons]
      split
      · exact ih.cons m
      · rename_i e he
        split at he
        · cases he
          exact ih.cons_cons m
        · cases he

theorem nodup_keys_convertPathItem (spec item : Fields Value) :
    (Fields.keys (convertPathItem spec item)).Nodup :=
  Fields.nodup_keys_update
    ((keys_operations_sublist spec item methods).nodup (by decide)) _

theorem get?_convertPathItem (hmethod : method ∈ methods)
    (hget : Fields.get? item method = some (.mapping operation)) :
    Fields.get? (convertPathItem spec item) method
      = some (.mapping (convertOperation spec (Fields.itemsAt item "parameters") operation)) := by
  unfold convertPathItem
  dsimp only
  rw [Fields.get?_update_of_notMem
    (notMem_keys_extensions item (isExtension_of_mem_methods hmethod))]
  refine Fields.get?_of_mem ((keys_operations_sublist spec item methods).nodup (by decide))
    (List.mem_filterMap.mpr ⟨method, hmethod, ?_⟩)
  rw [hget]

/-- A converted path has no parameters of its own: its operations have taken them over. -/
theorem get?_parameters_convertPathItem (spec item : Fields Value) :
    Fields.get? (convertPathItem spec item) "parameters" = none := by
  refine Fields.get?_eq_none fun hmem => ?_
  rcases Fields.mem_keys_update.mp hmem with hmem | hmem
  · exact absurd ((keys_operations_sublist spec item methods).subset hmem) (by decide)
  · exact notMem_keys_extensions item (by decide) hmem

theorem nodup_keys_convertOperation (spec : Fields Value) (ofPath : List Value)
    (operation : Fields Value) : (Fields.keys (convertOperation spec ofPath operation)).Nodup := by
  have hbody : ∀ body? : Option (Fields Value), (Fields.keys
      (body?.map fun b => ("requestBody", Value.mapping b)).toList).Sublist ["requestBody"] := by
    intro body?
    cases body? with
    | none => exact List.nil_sublist _
    | some body => exact List.Sublist.refl _
  have hkeys : ∀ (body? : Option (Fields Value)) (noParameters : Bool) (parameters responses : Value),
      (Fields.keys (Fields.select operation
          ["tags", "summary", "description", "externalDocs", "operationId", "deprecated", "security"]
        ++ (body?.map fun b => ("requestBody", Value.mapping b)).toList
        ++ (if noParameters then [] else [("parameters", parameters)])
        ++ [("responses", responses)])).Sublist
      (["tags", "summary", "description", "externalDocs", "operationId", "deprecated", "security"]
        ++ ["requestBody"] ++ ["parameters"] ++ ["responses"]) := by
    intro body? noParameters parameters responses
    rw [Fields.keys_append, Fields.keys_append, Fields.keys_append]
    exact (((Fields.keys_select_sublist _ _).append (hbody body?)).append
      (Fields.keys_unless_sublist _ _ _)).append (List.Sublist.refl ["responses"])
  exact Fields.nodup_keys_update ((hkeys _ _ _ _).nodup (by decide)) _

/-- The parameters of a converted operation, in a list if there are any. -/
theorem get?_parameters_convertOperation {parameters : List Value}
    (h : ((entriesOf spec item operation).filter Entry.isPlain).map
      (fun e => Value.mapping (convertParameter e.written)) = parameters) :
    Fields.get? (convertOperation spec (Fields.itemsAt item "parameters") operation) "parameters"
      = if parameters.isEmpty then none else some (.list parameters) := by
  rw [get?_convertOperation spec item operation (by decide) (by decide), h]
  cases requestBody? (typesOf spec operation "consumes") (entriesOf spec item operation) <;>
    cases parameters <;> simp [Fields.get?]

/-- **The body of an operation that has fields of a form has the form of the latest of them.** -/
theorem hasForm_convertOperation {all : List ParameterObject}
    (h : List.Forall₂ (StandsFor (Fields.fieldsAt spec "parameters"))
      (Fields.itemsAt item "parameters" ++ Fields.itemsAt operation "parameters") all)
    (hne : all.filter ParameterObject.isField ≠ []) :
    HasForm (Fields.fieldsAt (canonicalRefFields
        (convertOperation spec (Fields.itemsAt item "parameters") operation)) "requestBody")
      (latest ParameterObject.key (all.filter ParameterObject.isField)) := by
  have hform := map_resolved_formEntries (forall₂_effectiveEntries h)
  have hsome : ((latest ParameterObject.key (all.filter ParameterObject.isField)).map
      ParameterObject.fields).isEmpty = false := by
    rw [List.isEmpty_eq_false_iff, Ne, List.map_eq_nil_iff]
    exact latest_ne_nil hne
  rw [fieldsAt_canonicalRefFields, fieldsAt_convertOperation, requestBody?, entriesOf,
    hform, hsome]
  exact hasForm_formOf (nodup_map_name_latest all) _

end

end ApiClientGen.Canonical.Swagger
