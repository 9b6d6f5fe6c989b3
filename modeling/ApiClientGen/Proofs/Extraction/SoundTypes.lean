/-
All types that are found are closed.

Each function that finds types is taken through the cases of its run.  A type is either a
model with a name that is known, or one that was written just now, or it is put together from
types found by calls inside of it; the functions are proved for any way of answering these
calls, so that the induction is on the number of levels and happens only once.
-/
import ApiClientGen.Proofs.Extraction.Growth
import ApiClientGen.Proofs.Extraction.OperationRuns
import ApiClientGen.Proofs.Extraction.SchemaRuns

namespace ApiClientGen.Extraction

open ApiClientGen.Document ApiClientGen.Reference ApiClientGen.Spec Extract

namespace Scope

variable {s : Scope} {known : List String} {p p' : Progress} {t : TypeRef}

/-! ### Schemas -/

theorem modelOf?_ok {n : Node} {model : String} (h : s.modelOf? n = .ok (some model)) :
    ∃ name, Fields.get? s.models name = some model := by
  unfold modelOf? at h
  split at h
  · cases h
  split at h
  · cases h
  split at h
  · rename_i hget
    cases h
    exact ⟨_, hget⟩
  · cases h

theorem enumeration_sound (name : String) (fields : Fields Node) :
    Sound known Schema.types (liftM (s.enumeration name fields)) := by
  intro p model p' hrun
  obtain ⟨hmodel, rfl⟩ := lift_ok.mp hrun
  obtain ⟨values, description, rfl⟩ := enumeration_ok hmodel
  exact ⟨.refl p, fun t ht => by simp [Schema.types] at ht⟩

theorem hoist_enumeration_sound (hint : String) (fields : Fields Node) :
    SoundType known (hoist hint fun name => liftM (s.enumeration name fields)) := by
  refine Sound.hoist (fun name => enumeration_sound name fields) ?_
  intro name model p p' hrun
  obtain ⟨values, description, rfl⟩ := enumeration_ok (lift_ok.mp hrun).1
  rfl

section

variable {answer : Option Node → String → Extract TypeRef}
  (hanswer : ∀ part hint, SoundType known (answer part hint))

include hanswer

theorem recordField_sound (model name : String) (schema : Node) (required : List String) :
    Sound known (fun field => [field.type]) (recordField answer s model name schema required) := by
  intro p field p' hrun
  obtain ⟨type, description, default, htype, rfl⟩ := recordField_ok hrun
  exact hanswer _ _ htype

theorem record_sound (name : String) (schema : Node) (fields : Fields Node) :
    Sound known Schema.types (record answer s name schema fields) := by
  intro p model p' hrun
  obtain ⟨found, recordFields, description, isOpen, -, hfields, rfl⟩ := record_ok hrun
  obtain ⟨hgrows, hclosed⟩ :=
    Sound.mapM (fun e _ => recordField_sound hanswer name e.1 e.2 found.required) hfields
  refine ⟨hgrows, fun t ht => ?_⟩
  obtain ⟨field, hfield, rfl⟩ := List.mem_map.mp ht
  exact hclosed _ (List.mem_flatMap.mpr ⟨field, hfield, by simp⟩)

theorem hoist_record_sound (hint : String) (schema : Node) (fields : Fields Node) :
    SoundType known (hoist hint fun name => record answer s name schema fields) := by
  refine Sound.hoist (fun name => record_sound hanswer name schema fields) ?_
  intro name model p p' hrun
  obtain ⟨found, recordFields, description, isOpen, -, -, rfl⟩ := record_ok hrun
  rfl

theorem NamedRun.sound {fields : Fields Node} {hint : String} {nullable : Bool}
    (h : NamedRun answer s fields hint nullable p t p') :
    Grows known [] p p' ∧ t.Closed (p'.names known) := by
  cases h with
  | plain hname hkind => exact ⟨.refl p, TypeRef.closed_primitive hkind _⟩
  | array hname hitem =>
      obtain ⟨hgrows, hclosed⟩ := soundType_iff.mp (hanswer _ _) hitem
      exact ⟨hgrows, TypeRef.closed_arrayOf hclosed _⟩
  | map hname hvalue =>
      obtain ⟨hgrows, hclosed⟩ := soundType_iff.mp (hanswer _ _) hvalue
      exact ⟨hgrows, TypeRef.closed_mapOf hclosed _⟩
  | anyMap hname => exact ⟨.refl p, TypeRef.closed_mapOf TypeRef.closed_any _⟩

theorem MappingRun.sound {schema target : Node} {hint : String}
    (h : MappingRun answer s schema target hint p t p') :
    Grows known [] p p' ∧ t.Closed (p'.names known) := by
  cases h with
  | enumeration hhoist =>
      obtain ⟨hgrows, hclosed⟩ := soundType_iff.mp (hoist_enumeration_sound hint _) hhoist
      exact ⟨hgrows, hclosed.orNull _⟩
  | only hparts hone hanswered =>
      obtain ⟨hgrows, hclosed⟩ := soundType_iff.mp (hanswer _ _) hanswered
      exact ⟨hgrows, hclosed.orNull _⟩
  | record hhoist =>
      obtain ⟨hgrows, hclosed⟩ := soundType_iff.mp (hoist_record_sound hanswer hint _ _) hhoist
      exact ⟨hgrows, hclosed.orNull _⟩
  | named hnamed => exact hnamed.sound hanswer

end

/-! ### All levels -/

section

/- The names of the models for the schemas of the whole document are known. -/
variable (hmodels : ∀ name model, Fields.get? s.models name = some model → model ∈ known)

include hmodels

/-- One level finds closed types if the calls inside of it do. -/
theorem typeStep_sound {answer : Call → Extract TypeRef}
    (hanswer : ∀ c, SoundType known (answer c)) (c : Call) :
    SoundType known (s.typeStep answer c) := by
  refine soundType_iff.mpr fun p t p' hrun => ?_
  cases typeStep_ok hrun with
  | missing hnone => exact ⟨.refl p, TypeRef.closed_any⟩
  | model hschema hmodel =>
      obtain ⟨name, hget⟩ := modelOf?_ok hmodel
      exact ⟨.refl p, TypeRef.closed_reference (List.mem_append_left _ (hmodels name _ hget))⟩
  | closed hschema hown htarget hclosed => exact ⟨.refl p, TypeRef.closed_any⟩
  | mapping hschema hown htarget hmapping hopen hrun => exact hrun.sound fun part hint => hanswer _

theorem typeWithin_sound (levels : Nat) (c : Call) : SoundType known (s.typeWithin levels c) := by
  induction levels generalizing c with
  | zero =>
      refine soundType_iff.mpr fun p t p' hrun => ?_
      obtain ⟨rfl, rfl⟩ := pure_ok.mp hrun
      exact ⟨.refl p, TypeRef.closed_any⟩
  | succ levels ih => exact typeStep_sound hmodels ih c

theorem typeOf_sound (schema : Option Node) (hint : String) :
    SoundType known (s.typeOf schema hint) :=
  typeWithin_sound hmodels _ _

theorem component_sound (name : String) (schema : Node) :
    Sound known Schema.types (s.component name schema) := by
  intro p model p' hrun
  cases component_ok hrun with
  | model hmodel =>
      obtain ⟨other, hget⟩ := modelOf?_ok hmodel
      refine ⟨.refl p, fun t ht => ?_⟩
      rw [List.mem_singleton.mp ht]
      exact TypeRef.closed_reference (List.mem_append_left _ (hmodels other _ hget))
  | enumeration hown hfields henum henumeration =>
      exact enumeration_sound name _ (lift_ok.mpr ⟨henumeration, rfl⟩)
  | record hown hfields hisRecord hrecord => exact record_sound (typeOf_sound hmodels) name schema _ hrecord
  | synonym hown hfields henum hisRecord htype =>
      obtain ⟨hgrows, hclosed⟩ := soundType_iff.mp (typeOf_sound hmodels _ _) htype
      refine ⟨hgrows, fun t ht => ?_⟩
      rw [List.mem_singleton.mp ht]
      exact hclosed

end

theorem component_name {name : String} {schema : Node} {model : Schema}
    (h : (s.component name schema).run p = .ok (model, p')) : model.name = name := by
  cases component_ok h with
  | model hmodel => rfl
  | enumeration hown hfields henum henumeration =>
      obtain ⟨values, description, rfl⟩ := enumeration_ok henumeration
      rfl
  | record hown hfields hisRecord hrecord =>
      obtain ⟨found, recordFields, description, isOpen, -, -, rfl⟩ := record_ok hrecord
      rfl
  | synonym hown hfields henum hisRecord htype => rfl

/-! ### Operations -/

section

variable (hmodels : ∀ name model, Fields.get? s.models name = some model → model ∈ known)

include hmodels

theorem typeOfSomething_sound (schema : Option Node) (hint : String) :
    SoundType known (s.typeOfSomething schema hint) := by
  refine soundType_iff.mpr fun p t p' hrun => ?_
  rcases typeOfSomething_ok hrun with ⟨-, rfl, rfl⟩ | ⟨-, htype⟩
  · exact ⟨.refl p, TypeRef.closed_any⟩
  · exact soundType_iff.mp (typeOf_sound hmodels schema hint) htype

theorem parameter?_sound (hint : String) (n : Node) :
    Sound known (fun parameter => parameter.toList.map (·.type)) (s.parameter? hint n) := by
  intro p result p' hrun
  rcases parameter?_ok hrun with ⟨rfl, rfl⟩ | ⟨parameter, fields, schema, rfl, -, -, -, htype⟩
  · exact ⟨.refl p, by simp⟩
  · exact typeOfSomething_sound hmodels _ _ htype

theorem parameters_sound (hint : String) (nodes : List Node) :
    Sound known (fun parameters => parameters.map (·.type)) (s.parameters hint nodes) := by
  intro p parameters p' hrun
  obtain ⟨found, hfound, hmem, -⟩ := parameters_ok hrun
  obtain ⟨hgrows, hclosed⟩ := Sound.mapM (fun n _ => parameter?_sound hmodels hint n) hfound
  refine ⟨hgrows, fun t ht => ?_⟩
  obtain ⟨parameter, hparameter, rfl⟩ := List.mem_map.mp ht
  exact hclosed _ (List.mem_flatMap.mpr ⟨_, hmem parameter hparameter, by simp⟩)

theorem body?_sound (hint : String) (n : Option Node) :
    Sound known (fun body => (body.map (·.type)).toList) (s.body? hint n) := by
  intro p result p' hrun
  rcases body?_ok hrun with ⟨rfl, rfl⟩ | ⟨body, fields, media, content, rfl, -, -, -, htype⟩
  · exact ⟨.refl p, by simp⟩
  · exact typeOf_sound hmodels _ _ htype

theorem response?_sound (hint : String) (n : Option Node) :
    Sound known Option.toList (s.response? hint n) := by
  intro p result p' hrun
  rcases response?_ok hrun with ⟨rfl, rfl⟩ | ⟨type, responses, schema, rfl, -, -, htype⟩
  · exact ⟨.refl p, by simp⟩
  · exact typeOf_sound hmodels _ _ htype

theorem operation_sound (path method : String) (fields : Fields Node) (ofPath : List Node) :
    Sound known Operation.types (s.operation path method fields ofPath) := by
  intro p operation p' hrun
  obtain ⟨identifier, own, p₁, p₂, p₃, hname, -, hparameters, hbody, hresponse⟩ :=
    operation_ok hrun
  obtain ⟨-, rfl⟩ := takeOperationName_ok.mp hname
  obtain ⟨hgrows, hclosed⟩ := parameters_sound hmodels _ _ hparameters
  obtain ⟨hgrows', hclosed'⟩ := body?_sound hmodels _ _ hbody
  obtain ⟨hgrows'', hclosed''⟩ := response?_sound hmodels _ _ hresponse
  have hstart : Grows known [] p { p with operations := operation.name :: p.operations } :=
    .of_eq rfl rfl
  refine ⟨(hstart.seq hgrows).seq (hgrows'.seq hgrows''), fun t ht => ?_⟩
  rcases List.mem_append.mp ht with ht | ht
  · rcases List.mem_append.mp ht with ht | ht
    · exact (hclosed t ht).mono (hgrows'.seq hgrows'').names_subset
    · exact (hclosed' t ht).mono hgrows''.names_subset
  · exact hclosed'' t ht

theorem methodOperation?_sound (path : String) (fields : Fields Node) (ofPath : List Node)
    (method : String) :
    Sound known (fun operation => operation.toList.flatMap Operation.types)
      (s.methodOperation? path fields ofPath method) := by
  intro p result p' hrun
  rcases methodOperation?_ok hrun with ⟨rfl, rfl⟩ | ⟨operation, own, rfl, -, hoperation⟩
  · exact ⟨.refl p, by simp⟩
  · simpa using operation_sound hmodels _ _ _ _ hoperation

theorem pathOperations_sound (path : String) (item : Node) :
    Sound known (fun operations => operations.flatMap Operation.types)
      (s.pathOperations path item) := by
  intro p operations p' hrun
  obtain ⟨fields, ofPath, found, -, -, hfound, rfl⟩ := pathOperations_ok hrun
  obtain ⟨hgrows, hclosed⟩ :=
    Sound.mapM (fun method _ => methodOperation?_sound hmodels path fields ofPath method) hfound
  refine ⟨hgrows, fun t ht => hclosed t ?_⟩
  obtain ⟨operation, hoperation, ht⟩ := List.mem_flatMap.mp ht
  obtain ⟨_, hsome, rfl⟩ := List.mem_filterMap.mp hoperation
  exact List.mem_flatMap.mpr ⟨_, hsome, by simpa using ht⟩

theorem operations_sound (paths : Fields Node) :
    Sound known (fun operations => operations.flatMap Operation.types) (s.operations paths) := by
  intro p operations p' hrun
  obtain ⟨found, p₁, hfound, hrun⟩ := bind_ok.mp hrun
  obtain ⟨rfl, rfl⟩ := pure_ok.mp hrun
  obtain ⟨hgrows, hclosed⟩ := Sound.mapM (fun e _ => pathOperations_sound hmodels e.1 e.2) hfound
  refine ⟨hgrows, fun t ht => hclosed t ?_⟩
  obtain ⟨operation, hoperation, ht⟩ := List.mem_flatMap.mp ht
  obtain ⟨ofPath, hofPath, hoperation⟩ := List.mem_flatten.mp hoperation
  exact List.mem_flatMap.mpr ⟨ofPath, hofPath, List.mem_flatMap.mpr ⟨operation, hoperation, ht⟩⟩

end

end Scope

end ApiClientGen.Extraction
