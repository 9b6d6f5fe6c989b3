/-
How operations come about.

The lemmas here take a successful run of an operation apart: the parameters come first, then
the body, then the response, and each of them either calls for the type of one schema or leaves
everything as it is.
-/
import ApiClientGen.Proofs.Document.Latest
import ApiClientGen.Proofs.Extraction.Runs

namespace ApiClientGen.Extraction

open ApiClientGen.Document ApiClientGen.Naming ApiClientGen.Reference ApiClientGen.Spec

namespace Scope

variable {s : Scope} {p p' : Progress}

/-! ### Parameters -/

theorem typeOfSomething_ok {schema : Option Node} {hint : String} {t : TypeRef}
    (h : (s.typeOfSomething schema hint).run p = .ok (t, p')) :
    (s.isSomething schema = .ok false ∧ t = .any ∧ p = p')
      ∨ (s.isSomething schema = .ok true ∧ (s.typeOf schema hint).run p = .ok (t, p')) := by
  unfold typeOfSomething at h
  obtain ⟨isSomething, hsomething, h⟩ := Extract.lift_bind_ok.mp h
  cases isSomething with
  | true => exact Or.inr ⟨hsomething, h⟩
  | false =>
      obtain ⟨rfl, rfl⟩ := Extract.pure_ok.mp h
      exact Or.inl ⟨hsomething, rfl, rfl⟩

theorem parameter?_ok {hint : String} {n : Node} {result : Option Parameter}
    (h : (s.parameter? hint n).run p = .ok (result, p')) :
    (result = none ∧ p = p')
      ∨ ∃ parameter fields schema, result = some parameter
          ∧ s.fieldsOf (some n) = .ok fields
          ∧ s.textOf (Fields.get? fields "name") = .ok (some parameter.name)
          ∧ s.parameterSchema fields = .ok schema
          ∧ (s.typeOfSomething schema (hint ++ pascalCase parameter.name)).run p
              = .ok (parameter.type, p') := by
  unfold parameter? at h
  obtain ⟨fields, hfields, h⟩ := Extract.lift_bind_ok.mp h
  obtain ⟨name, hname, h⟩ := Extract.lift_bind_ok.mp h
  obtain ⟨place, -, h⟩ := Extract.lift_bind_ok.mp h
  split at h
  · obtain ⟨schema, hschema, h⟩ := Extract.lift_bind_ok.mp h
    obtain ⟨type, p₁, htype, h⟩ := Extract.bind_ok.mp h
    obtain ⟨description, -, h⟩ := Extract.lift_bind_ok.mp h
    obtain ⟨rfl, rfl⟩ := Extract.pure_ok.mp h
    exact Or.inr ⟨_, fields, schema, rfl, hfields, hname, hschema, htype⟩
  · obtain ⟨rfl, rfl⟩ := Extract.pure_ok.mp h
    exact Or.inl ⟨rfl, rfl⟩

/-- What a parameter replaces another one by. -/
def parameterKey (q : Parameter) : String × Location := (q.name, q.location)

/-- Adding a parameter is putting it in the place of the one with its name and location. -/
theorem addParameter_eq_putBy : addParameter = putBy parameterKey := by
  funext parameters q
  induction parameters with
  | nil => rfl
  | cons first rest ih =>
      rw [addParameter, putBy, ih]
      exact if_congr (by simp [parameterKey]) rfl rfl

theorem parameters_eq_latest {hint : String} {nodes : List Node} {parameters : List Parameter}
    (h : (s.parameters hint nodes).run p = .ok (parameters, p')) :
    ∃ found, (nodes.mapM (s.parameter? hint)).run p = .ok (found, p')
      ∧ parameters = latest parameterKey (found.filterMap id) := by
  unfold Scope.parameters at h
  obtain ⟨found, p₁, hfound, h⟩ := Extract.bind_ok.mp h
  obtain ⟨rfl, rfl⟩ := Extract.pure_ok.mp h
  exact ⟨found, hfound, by rw [addParameter_eq_putBy, foldl_putBy]⟩

/-- The parameters of an operation are among those that were found, with the names of all. -/
theorem parameters_ok {hint : String} {nodes : List Node} {parameters : List Parameter}
    (h : (s.parameters hint nodes).run p = .ok (parameters, p')) :
    ∃ found, (nodes.mapM (s.parameter? hint)).run p = .ok (found, p')
      ∧ (∀ x ∈ parameters, some x ∈ found)
      ∧ ∀ x, some x ∈ found → ∃ y ∈ parameters, y.name = x.name := by
  obtain ⟨found, hfound, rfl⟩ := parameters_eq_latest h
  refine ⟨found, hfound, fun x hx => ?_, fun x hx => ?_⟩
  · obtain ⟨y, hy, heq⟩ := List.mem_filterMap.mp (mem_of_mem_latest hx)
    exact heq ▸ hy
  · have hmem : x ∈ found.filterMap id := List.mem_filterMap.mpr ⟨some x, hx, rfl⟩
    obtain ⟨y, hy, hkey⟩ : ∃ y ∈ latest parameterKey (found.filterMap id),
        parameterKey y = parameterKey x := exists_mem_latest hmem
    exact ⟨y, hy, congrArg Prod.fst hkey⟩

/-! ### Bodies and responses -/

theorem body?_ok {hint : String} {n : Option Node} {result : Option RequestBody}
    (h : (s.body? hint n).run p = .ok (result, p')) :
    (result = none ∧ p = p')
      ∨ ∃ body fields media content, result = some body
          ∧ s.fieldsOf n = .ok fields
          ∧ s.fieldsOf (Fields.get? fields "content") = .ok media
          ∧ s.fieldsOf (Fields.get? media body.mediaType) = .ok content
          ∧ (s.typeOf (Fields.get? content "schema") (hint ++ "Request")).run p
              = .ok (body.type, p') := by
  unfold body? at h
  obtain ⟨fields, hfields, h⟩ := Extract.lift_bind_ok.mp h
  obtain ⟨media, hmedia, h⟩ := Extract.lift_bind_ok.mp h
  split at h
  · obtain ⟨rfl, rfl⟩ := Extract.pure_ok.mp h
    exact Or.inl ⟨rfl, rfl⟩
  · obtain ⟨content, hcontent, h⟩ := Extract.lift_bind_ok.mp h
    obtain ⟨type, p₁, htype, h⟩ := Extract.bind_ok.mp h
    obtain ⟨description, -, h⟩ := Extract.lift_bind_ok.mp h
    obtain ⟨rfl, rfl⟩ := Extract.pure_ok.mp h
    exact Or.inr ⟨_, fields, media, content, rfl, hfields, hmedia, hcontent, htype⟩

theorem response?_ok {hint : String} {n : Option Node} {result : Option TypeRef}
    (h : (s.response? hint n).run p = .ok (result, p')) :
    (result = none ∧ p = p')
      ∨ ∃ type responses schema, result = some type
          ∧ s.fieldsOf n = .ok responses
          ∧ (successCodes responses).findSomeM? (s.responseSchema? responses) = .ok (some schema)
          ∧ (s.typeOf (some schema) (hint ++ "Response")).run p = .ok (type, p') := by
  unfold response? at h
  obtain ⟨responses, hresponses, h⟩ := Extract.lift_bind_ok.mp h
  obtain ⟨found, hfound, h⟩ := Extract.lift_bind_ok.mp h
  split at h
  · obtain ⟨rfl, rfl⟩ := Extract.pure_ok.mp h
    exact Or.inl ⟨rfl, rfl⟩
  · obtain ⟨type, p₁, htype, h⟩ := Extract.bind_ok.mp h
    obtain ⟨rfl, rfl⟩ := Extract.pure_ok.mp h
    exact Or.inr ⟨type, responses, _, rfl, hresponses, hfound, htype⟩

/-! ### Operations -/

theorem operation_ok {path method : String} {fields : Fields Node} {ofPath : List Node}
    {operation : Operation}
    (h : (s.operation path method fields ofPath).run p = .ok (operation, p')) :
    ∃ identifier own p₁ p₂ p₃,
      (takeOperationName (operationName path method identifier)).run p = .ok (operation.name, p₁)
        ∧ s.itemsOf (Fields.get? fields "parameters") = .ok own
        ∧ (s.parameters (pascalCase operation.name) (ofPath ++ own)).run p₁
            = .ok (operation.parameters, p₂)
        ∧ (s.body? (pascalCase operation.name) (Fields.get? fields "requestBody")).run p₂
            = .ok (operation.body, p₃)
        ∧ (s.response? (pascalCase operation.name) (Fields.get? fields "responses")).run p₃
            = .ok (operation.response, p') := by
  unfold Scope.operation at h
  obtain ⟨identifier, -, h⟩ := Extract.lift_bind_ok.mp h
  obtain ⟨name, p₁, hname, h⟩ := Extract.bind_ok.mp h
  obtain ⟨summary, -, h⟩ := Extract.lift_bind_ok.mp h
  obtain ⟨description, -, h⟩ := Extract.lift_bind_ok.mp h
  obtain ⟨tags, -, h⟩ := Extract.lift_bind_ok.mp h
  obtain ⟨own, hown, h⟩ := Extract.lift_bind_ok.mp h
  obtain ⟨parameters, p₂, hparameters, h⟩ := Extract.bind_ok.mp h
  obtain ⟨body, p₃, hbody, h⟩ := Extract.bind_ok.mp h
  obtain ⟨response, p₄, hresponse, h⟩ := Extract.bind_ok.mp h
  obtain ⟨rfl, rfl⟩ := Extract.pure_ok.mp h
  exact ⟨identifier, own, p₁, p₂, p₃, hname, hown, hparameters, hbody, hresponse⟩

theorem methodOperation?_ok {path method : String} {fields : Fields Node} {ofPath : List Node}
    {result : Option Operation}
    (h : (s.methodOperation? path fields ofPath method).run p = .ok (result, p')) :
    (result = none ∧ p = p')
      ∨ ∃ operation own, result = some operation
          ∧ s.fieldsOf (Fields.get? fields method) = .ok own
          ∧ (s.operation path method own ofPath).run p = .ok (operation, p') := by
  unfold methodOperation? at h
  obtain ⟨isMapping, -, h⟩ := Extract.lift_bind_ok.mp h
  split at h
  · obtain ⟨own, hown, h⟩ := Extract.lift_bind_ok.mp h
    obtain ⟨operation, p₁, hoperation, h⟩ := Extract.bind_ok.mp h
    obtain ⟨rfl, rfl⟩ := Extract.pure_ok.mp h
    exact Or.inr ⟨operation, own, rfl, hown, hoperation⟩
  · obtain ⟨rfl, rfl⟩ := Extract.pure_ok.mp h
    exact Or.inl ⟨rfl, rfl⟩

theorem pathOperations_ok {path : String} {item : Node} {operations : List Operation}
    (h : (s.pathOperations path item).run p = .ok (operations, p')) :
    ∃ fields ofPath found,
      s.fieldsOf (some item) = .ok fields
        ∧ s.itemsOf (Fields.get? fields "parameters") = .ok ofPath
        ∧ (Canonical.methods.mapM (s.methodOperation? path fields ofPath)).run p = .ok (found, p')
        ∧ operations = found.filterMap id := by
  unfold pathOperations at h
  obtain ⟨fields, hfields, h⟩ := Extract.lift_bind_ok.mp h
  obtain ⟨ofPath, hofPath, h⟩ := Extract.lift_bind_ok.mp h
  obtain ⟨found, p₁, hfound, h⟩ := Extract.bind_ok.mp h
  obtain ⟨rfl, rfl⟩ := Extract.pure_ok.mp h
  exact ⟨fields, ofPath, found, hfields, hofPath, hfound, rfl⟩

end Scope

end ApiClientGen.Extraction
