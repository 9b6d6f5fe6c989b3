/-
What an interface says of its document.

The schemas of the whole document come with their models, and the operations with the paths that
they are taken from.  Every parameter, body and response has the type of a schema that is found
there, so that together with the fields of models all types of the interface stand for schemas
of the document.
-/
import ApiClientGen.Proofs.Document.Related
import ApiClientGen.Proofs.Extraction.SchemaTable
import ApiClientGen.Proofs.Extraction.TypeOrigins

namespace ApiClientGen.Extraction

open ApiClientGen.Canonical ApiClientGen.Document ApiClientGen.Reference ApiClientGen.Spec Extract

namespace Scope

variable {s : Scope} {document : Value} {written : Fields Schema}

/-! ### Operations -/

/-- A parameter has the type of its schema; one that counts as nothing allows any value. -/
def ParameterFor (s : Scope) (written : Fields Schema) (n : Node) (q : Parameter) : Prop :=
  ∃ fields schema, s.fieldsOf (some n) = .ok fields
    ∧ s.textOf (Fields.get? fields "name") = .ok (some q.name)
    ∧ s.parameterSchema fields = .ok schema
    ∧ ((s.isSomething schema = .ok false ∧ q.type = .any) ∨ s.TypeFor written [] schema q.type)

/-- A body has the type of the schema under its media type. -/
def BodyFor (s : Scope) (written : Fields Schema) (n : Option Node) (body : RequestBody) : Prop :=
  ∃ fields media content, s.fieldsOf n = .ok fields
    ∧ s.fieldsOf (Fields.get? fields "content") = .ok media
    ∧ s.fieldsOf (Fields.get? media body.mediaType) = .ok content
    ∧ s.TypeFor written [] (Fields.get? content "schema") body.type

/-- A response has the type of the schema that is the first to be found under a code of success. -/
def ResponseFor (s : Scope) (written : Fields Schema) (n : Option Node) (t : TypeRef) : Prop :=
  ∃ responses schema, s.fieldsOf n = .ok responses
    ∧ (successCodes responses).findSomeM? (s.responseSchema? responses) = .ok (some schema)
    ∧ s.TypeFor written [] (some schema) t

/-- The types of an operation stand for schemas of its own, or of its path. -/
structure OperationFor (s : Scope) (written : Fields Schema) (fields : Fields Node)
    (ofPath : List Node) (o : Operation) : Prop where
  parameters : ∃ own, s.itemsOf (Fields.get? fields "parameters") = .ok own
    ∧ ∀ q ∈ o.parameters, ∃ n ∈ ofPath ++ own, s.ParameterFor written n q
  body : ∀ body, o.body = some body → s.BodyFor written (Fields.get? fields "requestBody") body
  response : ∀ t, o.response = some t → s.ResponseFor written (Fields.get? fields "responses") t

/-- An operation is that of a path for a method. -/
def PathFor (s : Scope) (written : Fields Schema) (item : Node) (o : Operation) : Prop :=
  ∃ fields ofPath own, ∃ method ∈ methods, s.fieldsOf (some item) = .ok fields
    ∧ s.itemsOf (Fields.get? fields "parameters") = .ok ofPath
    ∧ s.fieldsOf (Fields.get? fields method) = .ok own ∧ s.OperationFor written own ofPath o

section

variable (hs : s.Wide document)

include hs

theorem parameter?_writes (hint : String) {n : Node} (hn : Located document n) :
    Writes written (fun result => ∀ q, result = some q → s.ParameterFor written n q)
      (s.parameter? hint n) := by
  intro p result p' hrun
  rcases parameter?_ok hrun with
    ⟨rfl, rfl⟩ | ⟨parameter, fields, schema, rfl, hfields, hname, hschema, htype⟩
  · exact ⟨List.Subset.refl _, fun _ q hq => nomatch hq⟩
  · rcases typeOfSomething_ok htype with ⟨hnothing, hany, rfl⟩ | ⟨-, htype⟩
    · refine ⟨List.Subset.refl _, fun _ q hq => ?_⟩
      cases hq
      exact ⟨fields, schema, hfields, hname, hschema, Or.inl ⟨hnothing, hany⟩⟩
    · have hlocated := hs.parameterSchema (hs.fieldsOf (locatedOption_some hn) hfields) hschema
      obtain ⟨hkept, hfits⟩ := typeOf_writes hs _ hlocated htype
      refine ⟨hkept, fun hsub q hq => ?_⟩
      cases hq
      exact ⟨fields, schema, hfields, hname, hschema, Or.inr (hfits hsub)⟩

theorem parameters_writes (hint : String) {nodes : List Node}
    (hnodes : LocatedList document nodes) :
    Writes written (fun parameters => ∀ q ∈ parameters, ∃ n ∈ nodes, s.ParameterFor written n q)
      (s.parameters hint nodes) := by
  intro p parameters p' hrun
  obtain ⟨found, hfound, hmem, -⟩ := parameters_ok hrun
  obtain ⟨hkept, hfits⟩ :=
    Writes.mapM (fun n hn => parameter?_writes hs hint (hnodes n hn)) hfound
  refine ⟨hkept, fun hsub q hq => ?_⟩
  obtain ⟨n, hn, hfor⟩ := exists_of_forall₂_right (hfits hsub) (hmem q hq)
  exact ⟨n, hn, hfor q rfl⟩

theorem body?_writes (hint : String) {n : Option Node} (hn : LocatedOption document n) :
    Writes written (fun result => ∀ body, result = some body → s.BodyFor written n body)
      (s.body? hint n) := by
  intro p result p' hrun
  rcases body?_ok hrun with
    ⟨rfl, rfl⟩ | ⟨body, fields, media, content, rfl, hfields, hmedia, hcontent, htype⟩
  · exact ⟨List.Subset.refl _, fun _ body hbody => nomatch hbody⟩
  · have hlocated := hs.fieldsOf ((hs.fieldsOf hn hfields).get? "content") hmedia
    have hschema := (hs.fieldsOf (hlocated.get? body.mediaType) hcontent).get? "schema"
    obtain ⟨hkept, hfits⟩ := typeOf_writes hs _ hschema htype
    refine ⟨hkept, fun hsub other hother => ?_⟩
    cases hother
    exact ⟨fields, media, content, hfields, hmedia, hcontent, hfits hsub⟩

theorem response?_writes (hint : String) {n : Option Node} (hn : LocatedOption document n) :
    Writes written (fun result => ∀ t, result = some t → s.ResponseFor written n t)
      (s.response? hint n) := by
  intro p result p' hrun
  rcases response?_ok hrun with
    ⟨rfl, rfl⟩ | ⟨type, responses, schema, rfl, hresponses, hfound, htype⟩
  · exact ⟨List.Subset.refl _, fun _ t ht => nomatch ht⟩
  · obtain ⟨code, -, hschema⟩ := except_findSomeM?_ok hfound
    have hlocated := hs.responseSchema? (hs.fieldsOf hn hresponses) hschema
    obtain ⟨hkept, hfits⟩ := typeOf_writes hs _ hlocated htype
    refine ⟨hkept, fun hsub t ht => ?_⟩
    cases ht
    exact ⟨responses, schema, hresponses, hfound, hfits hsub⟩

theorem operation_writes (path method : String) {fields : Fields Node} {ofPath : List Node}
    (hfields : LocatedFields document fields) (hofPath : LocatedList document ofPath) :
    Writes written (s.OperationFor written fields ofPath)
      (s.operation path method fields ofPath) := by
  intro p o p' hrun
  obtain ⟨identifier, own, p₁, p₂, p₃, hname, hown, hparameters, hbody, hresponse⟩ :=
    operation_ok hrun
  obtain ⟨-, rfl⟩ := takeOperationName_ok.mp hname
  have hnodes : LocatedList document (ofPath ++ own) := fun n hn =>
    (List.mem_append.mp hn).elim (hofPath n) (hs.itemsOf (hfields.get? "parameters") hown n)
  obtain ⟨hkept, hfits⟩ := parameters_writes hs _ hnodes hparameters
  obtain ⟨hkept', hfits'⟩ := body?_writes hs _ (hfields.get? "requestBody") hbody
  obtain ⟨hkept'', hfits''⟩ := response?_writes hs _ (hfields.get? "responses") hresponse
  refine ⟨fun e he => hkept'' (hkept' (hkept he)), fun hsub => ⟨⟨own, hown, hfits fun e he =>
    hsub (hkept'' (hkept' he))⟩, hfits' fun e he => hsub (hkept'' he), hfits'' hsub⟩⟩

theorem methodOperation?_writes (path : String) {fields : Fields Node} {ofPath : List Node}
    (method : String) (hfields : LocatedFields document fields)
    (hofPath : LocatedList document ofPath) :
    Writes written (fun result => ∀ o, result = some o →
        ∃ own, s.fieldsOf (Fields.get? fields method) = .ok own
          ∧ s.OperationFor written own ofPath o)
      (s.methodOperation? path fields ofPath method) := by
  intro p result p' hrun
  rcases methodOperation?_ok hrun with ⟨rfl, rfl⟩ | ⟨operation, own, rfl, hown, hoperation⟩
  · exact ⟨List.Subset.refl _, fun _ o ho => nomatch ho⟩
  · have hlocated := hs.fieldsOf (hfields.get? method) hown
    obtain ⟨hkept, hfits⟩ := operation_writes hs path method hlocated hofPath hoperation
    refine ⟨hkept, fun hsub o ho => ?_⟩
    cases ho
    exact ⟨own, hown, hfits hsub⟩

theorem pathOperations_writes (path : String) {item : Node} (hitem : Located document item) :
    Writes written (fun operations => ∀ o ∈ operations, s.PathFor written item o)
      (s.pathOperations path item) := by
  intro p operations p' hrun
  obtain ⟨fields, ofPath, found, hfields, hofPath, hfound, rfl⟩ := pathOperations_ok hrun
  have hlocated := hs.fieldsOf (locatedOption_some hitem) hfields
  have hparameters := hs.itemsOf (hlocated.get? "parameters") hofPath
  obtain ⟨hkept, hfits⟩ := Writes.mapM (fun method _ =>
    methodOperation?_writes hs path method hlocated hparameters) hfound
  refine ⟨hkept, fun hsub o ho => ?_⟩
  obtain ⟨result, hresult, rfl⟩ := List.mem_filterMap.mp ho
  obtain ⟨method, hmethod, hfor⟩ := exists_of_forall₂_right (hfits hsub) hresult
  obtain ⟨own, hown, hoperation⟩ := hfor o rfl
  exact ⟨fields, ofPath, own, method, hmethod, hfields, hofPath, hown, hoperation⟩

theorem operations_writes {paths : Fields Node} (hpaths : LocatedFields document paths) :
    Writes written (fun operations => ∀ o ∈ operations, ∃ e ∈ paths, s.PathFor written e.2 o)
      (s.operations paths) := by
  intro p operations p' hrun
  obtain ⟨found, p₁, hfound, hrun⟩ := bind_ok.mp hrun
  obtain ⟨rfl, rfl⟩ := pure_ok.mp hrun
  obtain ⟨hkept, hfits⟩ :=
    Writes.mapM (fun e he => pathOperations_writes hs e.1 (hpaths e he)) hfound
  refine ⟨hkept, fun hsub o ho => ?_⟩
  obtain ⟨ofItem, hofItem, ho⟩ := List.mem_flatten.mp ho
  obtain ⟨e, he, hfor⟩ := exists_of_forall₂_right (hfits hsub) hofItem
  exact ⟨e, he, hfor o ho⟩

end

/-! ### The whole document -/

/-- **The types of an interface stand for the schemas of its document.** -/
structure Describes (s : Scope) (parts : Parts) (spec : ApiSpec) : Prop where
  /-- Every schema of the whole document has its model. -/
  schemas : ∀ key n, Fields.get? parts.schemas key = some n →
    ∃ name model, Fields.get? s.models key = some name ∧ spec.schema? name = some model
      ∧ s.ModelFor spec.schemas name n model
  /-- Every operation is that of a path. -/
  operations : ∃ paths, s.fieldsOf (Fields.get? parts.document "paths") = .ok paths
    ∧ ∀ o ∈ spec.operations, ∃ e ∈ paths, s.PathFor spec.schemas e.2 o

end Scope

/-- What is taken out of a document describes it. -/
theorem describes_of_extract {d : CanonicalDocument} {spec : ApiSpec} (h : extract d = .ok spec) :
    ∃ s parts, prepare {} d = .ok (s, parts) ∧ s.Describes parts spec := by
  obtain ⟨s, parts, p, hprepare, hmodels, hrun⟩ := extract_ok h
  obtain ⟨linked, hlinked, -⟩ := except_bind_ok.mp hprepare
  obtain ⟨hs, hparts⟩ := prepare_wide (except_mapError_ok.mp hlinked) hprepare
  obtain ⟨p₁, paths, hpaths, hcomponents, hoperations, hschemas⟩ := Scope.interface_paths_ok hrun
  have hkeys := (keys_of_extract h).1
  have hwritten : spec.schemas = p.schemas := by
    obtain ⟨-, hnodup, hperm, -⟩ :=
      Scope.interface_names hmodels hrun (nodup_keys_schemas hprepare)
    rw [hschemas, Fields.ofEntries_eq_self (hperm.nodup_iff.mpr hnodup)]
  have hlocated := hs.fieldsOf (hparts.document.get? "paths") hpaths
  have hmodelsFor : Writes spec.schemas _ _ := Scope.components_writes hs hparts.schemas
  have hpathsFor : Writes spec.schemas _ _ := Scope.operations_writes hs hlocated
  obtain ⟨-, hmade⟩ := hmodelsFor hcomponents
  obtain ⟨hkept, htaken⟩ := hpathsFor hoperations
  refine ⟨s, parts, hprepare, ⟨fun key n hn => ?_, paths, hpaths,
    htaken fun e he => hwritten ▸ he⟩⟩
  obtain ⟨name, hname⟩ := exists_model hprepare hmodels (Fields.mem_keys_of_get? hn)
  obtain ⟨model, hmem, hmodel⟩ :=
    hmade (fun e he => hwritten ▸ hkept he) (key, n) (Fields.mem_of_get? hn) name hname
  exact ⟨name, model, hname, Fields.get?_of_mem hkeys hmem, hmodel⟩

end ApiClientGen.Extraction
