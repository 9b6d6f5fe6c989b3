/-
What names are made from.

A model that comes up on the way is named after a hint: the field of a record, the parameter,
the body or the response that it is for, followed by one word for each array or map around it.
These hints can be read off the interface as it is in the end, since records keep their fields
and operations the names of their parameters.  So it is said of a run that it leads to an
interface, and what it has taken is named after hints of that interface.

Operations are named in the order in which they are taken.  No part that finds types takes a
name for an operation, so that the names taken are those of the operations, each of them free
when it was taken.
-/
import ApiClientGen.Proofs.Extraction.SchemaTable
import ApiClientGen.Proofs.Naming.SnakeNames

namespace ApiClientGen.Extraction

open ApiClientGen.Document ApiClientGen.Naming ApiClientGen.Reference ApiClientGen.Spec Extract

/-! ### Hints -/

/-- The hints of an interface, which models that come up on the way are named after. -/
inductive Hint (spec : ApiSpec) : String → Prop where
  /-- The type of a field of a record. -/
  | field {model name : String} {description : Option String} {fields : List RecordField}
      {isOpen : Bool} {f : RecordField}
      (hmodel : (model, ⟨name, description, .record fields isOpen⟩) ∈ spec.schemas)
      (hfield : f ∈ fields) : Hint spec (model ++ pascalCase f.name)
  /-- The type that a schema of the whole document is a name for. -/
  | synonym {model name : String} {description : Option String} {t : TypeRef}
      (hmodel : (model, ⟨name, description, .alias t⟩) ∈ spec.schemas) :
      Hint spec (model ++ "Item")
  /-- The type of a parameter. -/
  | parameter {o : Operation} {q : Parameter} (hoperation : o ∈ spec.operations)
      (hparameter : q ∈ o.parameters) : Hint spec (pascalCase o.name ++ pascalCase q.name)
  /-- The type of the body of a request. -/
  | request {o : Operation} (hoperation : o ∈ spec.operations) (hbody : o.body.isSome = true) :
      Hint spec (pascalCase o.name ++ "Request")
  /-- The type of a response. -/
  | response {o : Operation} (hoperation : o ∈ spec.operations)
      (hresponse : o.response.isSome = true) : Hint spec (pascalCase o.name ++ "Response")
  /-- The items of an array. -/
  | item {hint : String} (harray : Hint spec hint) : Hint spec (hint ++ "Item")
  /-- The values of a map. -/
  | value {hint : String} (hmap : Hint spec hint) : Hint spec (hint ++ "Value")

/-- A name is made from a wanted one: it is its spelling, maybe with a number behind it. -/
def IsMadeFrom (name wanted : String) : Prop :=
  name = modelNameOf wanted ∨ ∃ n : Nat, name = modelNameOf wanted ++ toString n

theorem isMadeFrom_freeModelName (taken : List String) (wanted : String) :
    IsMadeFrom (freeModelName taken wanted) wanted :=
  (firstFree_cases taken (modelNameOf wanted) (numbered_injective _)).imp And.right
    fun ⟨n, _, heq⟩ => ⟨n, heq⟩

/-- A name is made from a hint of the interface. -/
def NamedAfterHint (spec : ApiSpec) (name : String) : Prop :=
  ∃ hint, Hint spec hint ∧ IsMadeFrom name hint

/-! ### Runs that take names -/

/--
What a run takes on its way to an interface: names of models made from hints, if what the run was
asked for belongs to the interface, and the names of operations.
-/
structure Takes (spec : ApiSpec) (asked : Prop) (operations : List String)
    (p p' : Progress) : Prop where
  models : ∃ taken, p'.models = taken ++ p.models
    ∧ (p'.schemas ⊆ spec.schemas → asked → ∀ name ∈ taken, NamedAfterHint spec name)
  schemas : p.schemas ⊆ p'.schemas
  operations : p'.operations = operations.reverse ++ p.operations
  distinct : p.operations.Nodup → p'.operations.Nodup
  spelled : (∀ name ∈ p.operations, IsSnakeName name) → ∀ name ∈ p'.operations, IsSnakeName name

namespace Takes

variable {spec : ApiSpec} {asked asked' : Prop} {first second : List String} {p p₁ p' : Progress}

theorem refl (p : Progress) : Takes spec asked [] p p where
  models := ⟨[], rfl, fun _ _ _ h => nomatch h⟩
  schemas := List.Subset.refl _
  operations := rfl
  distinct := id
  spelled := id

theorem trans (h : Takes spec asked first p p₁) (h' : Takes spec asked' second p₁ p') :
    Takes spec (asked ∧ asked') (first ++ second) p p' where
  models := by
    obtain ⟨taken, hmodels, hafter⟩ := h.models
    obtain ⟨taken', hmodels', hafter'⟩ := h'.models
    refine ⟨taken' ++ taken, by rw [hmodels', hmodels, List.append_assoc], ?_⟩
    intro hsub ⟨hasked, hasked'⟩ name hname
    rcases List.mem_append.mp hname with hname | hname
    · exact hafter' hsub hasked' name hname
    · exact hafter (List.Subset.trans h'.schemas hsub) hasked name hname
  schemas := List.Subset.trans h.schemas h'.schemas
  operations := by rw [h'.operations, h.operations, List.reverse_append, List.append_assoc]
  distinct := h'.distinct ∘ h.distinct
  spelled := h'.spelled ∘ h.spelled

theorem mono (h : Takes spec asked first p p') (hasked : asked' → asked) :
    Takes spec asked' first p p' where
  models := by
    obtain ⟨taken, hmodels, hafter⟩ := h.models
    exact ⟨taken, hmodels, fun hsub hgiven => hafter hsub (hasked hgiven)⟩
  schemas := h.schemas
  operations := h.operations
  distinct := h.distinct
  spelled := h.spelled

/-- A schema that is written in the end was asked for all along. -/
theorem keep {key : String} {schema : Schema}
    (h : Takes spec ((key, schema) ∈ spec.schemas) [] p p') :
    Takes spec True [] p { p' with schemas := p'.schemas ++ [(key, schema)] } where
  models := by
    obtain ⟨taken, hmodels, hafter⟩ := h.models
    refine ⟨taken, hmodels, fun hsub _ => ?_⟩
    have hkept : p'.schemas ⊆ spec.schemas := fun e he => hsub (List.mem_append_left _ he)
    exact hafter hkept (hsub (by simp))
  schemas := List.Subset.trans h.schemas (List.subset_append_left _ _)
  operations := h.operations
  distinct := h.distinct
  spelled := h.spelled

/-- A name for a model is made from the hint that it is taken for. -/
theorem take {hint : String}
    (h : Takes spec True [] { p with models := freeModelName p.models hint :: p.models } p') :
    Takes spec (Hint spec hint) [] p p' where
  models := by
    obtain ⟨taken, hmodels, hafter⟩ := h.models
    refine ⟨taken ++ [freeModelName p.models hint], by simp [hmodels], fun hsub hhint name hname => ?_⟩
    rcases List.mem_append.mp hname with hname | hname
    · exact hafter hsub trivial name hname
    · rw [List.mem_singleton.mp hname]
      exact ⟨hint, hhint, isMadeFrom_freeModelName _ hint⟩
  schemas := h.schemas
  operations := h.operations
  distinct := h.distinct
  spelled := h.spelled

end Takes

/-- Every run of a part takes names for what its result is asked for, and for operations. -/
def Extract.TakesNames {α : Type} (spec : ApiSpec) (asked : α → Prop) (operations : α → List String)
    (m : Extract α) : Prop :=
  ∀ ⦃p a p'⦄, m.run p = .ok (a, p') → Takes spec (asked a) (operations a) p p'

namespace Extract

variable {α β : Type} {spec : ApiSpec}

/-- A part that takes no names for operations. -/
abbrev TakesHints (spec : ApiSpec) (asked : α → Prop) (m : Extract α) : Prop :=
  TakesNames spec asked (fun _ => []) m

/-- A part may be run on each of several things in a row. -/
theorem TakesNames.mapM {asked : β → Prop} {operations : β → List String} {f : α → Extract β}
    {l : List α} (h : ∀ a ∈ l, TakesNames spec asked operations (f a)) :
    TakesNames spec (fun bs => ∀ b ∈ bs, asked b) (fun bs => bs.flatMap operations) (l.mapM f) := by
  induction l with
  | nil =>
      intro p bs p' hrun
      obtain ⟨rfl, rfl⟩ := mapM_nil_ok.mp hrun
      exact .refl p
  | cons a l ih =>
      intro p bs p' hrun
      obtain ⟨b, rest, p₁, hb, hrest, rfl⟩ := mapM_cons_ok.mp hrun
      have hfirst := h a (by simp) hb
      have hothers := ih (fun x hx => h x (List.mem_cons_of_mem _ hx)) hrest
      show Takes spec _ (operations b ++ rest.flatMap operations) p p'
      exact (hfirst.trans hothers).mono List.forall_mem_cons.mp

theorem TakesHints.mapM {asked : β → Prop} {f : α → Extract β} {l : List α}
    (h : ∀ a ∈ l, TakesHints spec asked (f a)) :
    TakesHints spec (fun bs => ∀ b ∈ bs, asked b) (l.mapM f) := by
  intro p bs p' hrun
  have htakes := TakesNames.mapM h hrun
  have hnone : (bs.flatMap fun _ => ([] : List String)) = [] := by simp
  dsimp only at htakes
  rwa [hnone] at htakes

/-- A model of its own is named after the hint for it. -/
theorem TakesHints.hoist {hint : String} {model : String → Extract Schema}
    (h : ∀ name, TakesHints spec (fun schema => (name, schema) ∈ spec.schemas) (model name)) :
    TakesHints spec (fun _ => Hint spec hint) (Scope.hoist hint model) := by
  intro p t p' hrun
  obtain ⟨schema, p₁, hschema, rfl, rfl⟩ := hoist_ok.mp hrun
  exact (h _ hschema).keep.take

end Extract

namespace Scope

variable {s : Scope} {spec : ApiSpec} {p p' : Progress} {t : TypeRef}

/-! ### Schemas -/

theorem enumeration_takesHints (name : String) (fields : Fields Node) (asked : Schema → Prop) :
    TakesHints spec asked (liftM (s.enumeration name fields)) := by
  intro p model p' hrun
  obtain ⟨-, rfl⟩ := lift_ok.mp hrun
  exact .refl p

section

variable {answer : Option Node → String → Extract TypeRef}
  (hanswer : ∀ part hint, TakesHints spec (fun _ => Hint spec hint) (answer part hint))

include hanswer

theorem recordField_takesHints (model name : String) (schema : Node) (required : List String) :
    TakesHints spec (fun f => Hint spec (model ++ pascalCase f.name))
      (recordField answer s model name schema required) := by
  intro p field p' hrun
  obtain ⟨type, description, default, htype, rfl⟩ := recordField_ok hrun
  exact hanswer _ _ htype

theorem record_takesHints (name : String) (schema : Node) (fields : Fields Node) :
    TakesHints spec (fun model => (name, model) ∈ spec.schemas)
      (record answer s name schema fields) := by
  intro p model p' hrun
  obtain ⟨found, recordFields, description, isOpen, -, hfields, rfl⟩ := record_ok hrun
  have htakes := TakesHints.mapM
    (fun e _ => recordField_takesHints (s := s) hanswer name e.1 e.2 found.required) hfields
  exact htakes.mono fun hmodel f hf => .field hmodel hf

theorem NamedRun.takesHints {fields : Fields Node} {hint : String} {nullable : Bool}
    (h : NamedRun answer s fields hint nullable p t p') :
    Takes spec (Hint spec hint) [] p p' := by
  cases h with
  | plain hname hkind => exact .refl p
  | array hname hitem => exact (hanswer _ _ hitem).mono .item
  | map hname hvalue => exact (hanswer _ _ hvalue).mono .value
  | anyMap hname => exact .refl p

theorem MappingRun.takesHints {schema target : Node} {hint : String}
    (h : MappingRun answer s schema target hint p t p') : Takes spec (Hint spec hint) [] p p' := by
  cases h with
  | enumeration hhoist =>
      exact TakesHints.hoist (fun name => enumeration_takesHints name _ _) hhoist
  | only hparts hone hpart => exact hanswer _ _ hpart
  | record hhoist => exact TakesHints.hoist (fun name => record_takesHints hanswer name _ _) hhoist
  | named hnamed => exact hnamed.takesHints hanswer

end

theorem typeWithin_takesHints (levels : Nat) (c : Call) :
    TakesHints spec (fun _ => Hint spec c.hint) (s.typeWithin levels c) := by
  induction levels generalizing c with
  | zero =>
      intro p t p' hrun
      obtain ⟨rfl, rfl⟩ := pure_ok.mp hrun
      exact .refl p
  | succ levels ih =>
      intro p t p' hrun
      cases typeStep_ok hrun with
      | missing hnone => exact .refl p
      | model hschema hmodel => exact .refl p
      | closed hschema hown htarget hclosed => exact .refl p
      | mapping hschema hown htarget hmapping hopen hrun =>
          exact hrun.takesHints fun part hint => ih ⟨_, part, hint⟩

theorem typeOf_takesHints (schema : Option Node) (hint : String) :
    TakesHints spec (fun _ => Hint spec hint) (s.typeOf schema hint) :=
  typeWithin_takesHints _ { schema, hint }

theorem component_takesHints (name : String) (schema : Node) :
    TakesHints spec (fun model => (name, model) ∈ spec.schemas) (s.component name schema) := by
  intro p model p' hrun
  cases component_ok hrun with
  | model hmodel => exact .refl p
  | enumeration hown hfields henum henumeration => exact .refl p
  | record hown hfields hisRecord hrecord =>
      exact record_takesHints (fun part hint => typeOf_takesHints part hint) name _ _ hrecord
  | synonym hown hfields henum hisRecord htype =>
      exact (typeOf_takesHints _ _ htype).mono fun hmodel => .synonym hmodel

theorem components_takesHints (schemas : Fields Node) :
    TakesHints spec (fun _ => True) (s.components schemas) := by
  induction schemas with
  | nil =>
      intro p u p' hrun
      obtain rfl := components_nil_ok hrun
      exact .refl p
  | cons e schemas ih =>
      intro p u p' hrun
      rcases components_cons_ok hrun with ⟨-, hrest⟩ | ⟨name, schema, p₁, -, hschema, hrest⟩
      · exact ih hrest
      · exact ((component_takesHints name e.2 hschema).keep.trans (ih hrest)).mono
          fun _ => ⟨trivial, trivial⟩

/-! ### Operations -/

theorem parameter?_takesHints (hint : String) (n : Node) :
    TakesHints spec (fun result => ∀ q, result = some q → Hint spec (hint ++ pascalCase q.name))
      (s.parameter? hint n) := by
  intro p result p' hrun
  rcases parameter?_ok hrun with ⟨rfl, rfl⟩ | ⟨parameter, fields, schema, rfl, -, -, -, htype⟩
  · exact .refl p
  · rcases typeOfSomething_ok htype with ⟨-, -, rfl⟩ | ⟨-, htype⟩
    · exact .refl p
    · exact (typeOf_takesHints _ _ htype).mono fun hasked => hasked parameter rfl

theorem parameters_takesHints (hint : String) (nodes : List Node) :
    TakesHints spec (fun parameters => ∀ q ∈ parameters, Hint spec (hint ++ pascalCase q.name))
      (s.parameters hint nodes) := by
  intro p parameters p' hrun
  obtain ⟨found, hfound, -, hnames⟩ := parameters_ok hrun
  refine (TakesHints.mapM (fun n _ => parameter?_takesHints hint n) hfound).mono ?_
  rintro hasked _ hresult q rfl
  obtain ⟨same, hsame, hname⟩ := hnames q hresult
  exact hname ▸ hasked same hsame

theorem body?_takesHints (hint : String) (n : Option Node) :
    TakesHints spec (fun result => result.isSome = true → Hint spec (hint ++ "Request"))
      (s.body? hint n) := by
  intro p result p' hrun
  rcases body?_ok hrun with ⟨rfl, rfl⟩ | ⟨body, fields, media, content, rfl, -, -, -, htype⟩
  · exact .refl p
  · exact (typeOf_takesHints _ _ htype).mono fun hasked => hasked rfl

theorem response?_takesHints (hint : String) (n : Option Node) :
    TakesHints spec (fun result => result.isSome = true → Hint spec (hint ++ "Response"))
      (s.response? hint n) := by
  intro p result p' hrun
  rcases response?_ok hrun with ⟨rfl, rfl⟩ | ⟨type, responses, schema, rfl, -, -, htype⟩
  · exact .refl p
  · exact (typeOf_takesHints _ _ htype).mono fun hasked => hasked rfl

end Scope

/-- The methods of operations are names in small letters. -/
theorem isSnakeName_method : ∀ method ∈ Canonical.methods, IsSnakeName method := by
  have hmethods : ∀ method ∈ Canonical.methods, snakeCase method = method ∧ method ≠ "" := by
    decide +kernel
  intro method hmethod
  obtain ⟨hsame, hne⟩ := hmethods method hmethod
  have hsnake : IsSnakeName (snakeCase method) :=
    isSnakeName_snakeCase (by rw [hsame]; exact hne)
  rwa [hsame] at hsnake

/-- An operation is named in small letters, after its identifier, its route or its method. -/
theorem isSnakeName_operationName (path : String) {method : String} (identifier : Option String)
    (hmethod : method ∈ Canonical.methods) : IsSnakeName (operationName path method identifier) := by
  have hname : ∀ name, (name ≠ "" → IsSnakeName name)
      → IsSnakeName (if name = "" then method else name) := by
    intro name hsnake
    split
    · exact isSnakeName_method method hmethod
    · rename_i hne
      exact hsnake hne
  cases identifier with
  | none => exact hname (nameOfRoute path method) isSnakeName_snakeCase
  | some text => exact hname (snakeCase text) isSnakeName_snakeCase

theorem marked_injective (name : String) :
    Function.Injective fun n : Nat => name ++ "_" ++ toString n :=
  numbered_injective (name ++ "_")

/-- The name taken for an operation is free, and in small letters if the wanted one is. -/
theorem takeOperationName_takes {spec : ApiSpec} {wanted name : String} {p p' : Progress}
    (hwanted : IsSnakeName wanted) (h : (takeOperationName wanted).run p = .ok (name, p')) :
    Takes spec True [name] p p' := by
  obtain ⟨rfl, rfl⟩ := takeOperationName_ok.mp h
  refine ⟨⟨[], rfl, fun _ _ _ hname => nomatch hname⟩, List.Subset.refl _, rfl, fun hnodup => ?_,
    fun hspelled => List.forall_mem_cons.mpr ⟨?_, hspelled⟩⟩
  · exact List.nodup_cons.mpr ⟨firstFree_not_mem _ wanted (marked_injective wanted), hnodup⟩
  · unfold freeOperationName
    rcases firstFree_cases p.operations wanted (marked_injective wanted)
      with ⟨-, heq⟩ | ⟨n, -, heq⟩
    · rw [heq]
      exact hwanted
    · rw [heq]
      exact hwanted.numbered n

namespace Scope

variable {s : Scope} {spec : ApiSpec}

theorem operation_takes (path : String) {method : String} (fields : Fields Node)
    (ofPath : List Node) (hmethod : method ∈ Canonical.methods) :
    TakesNames spec (fun o => o ∈ spec.operations) (fun o => [o.name])
      (s.operation path method fields ofPath) := by
  intro p o p' hrun
  obtain ⟨identifier, own, p₁, p₂, p₃, hname, -, hparameters, hbody, hresponse⟩ := operation_ok hrun
  have hfirst : Takes spec True [o.name] p p₁ :=
    takeOperationName_takes (isSnakeName_operationName path identifier hmethod) hname
  have htypes := ((hfirst.trans (parameters_takesHints _ _ hparameters)).trans
    (body?_takesHints _ _ hbody)).trans (response?_takesHints _ _ hresponse)
  exact htypes.mono fun ho =>
    ⟨⟨⟨trivial, fun q hq => .parameter ho hq⟩, .request ho⟩, .response ho⟩

theorem methodOperation?_takes (path : String) (fields : Fields Node) (ofPath : List Node)
    {method : String} (hmethod : method ∈ Canonical.methods) :
    TakesNames spec (fun result => ∀ o ∈ result, o ∈ spec.operations)
      (fun result => result.toList.map (·.name)) (s.methodOperation? path fields ofPath method) := by
  intro p result p' hrun
  rcases methodOperation?_ok hrun with ⟨rfl, rfl⟩ | ⟨operation, own, rfl, -, hoperation⟩
  · exact .refl p
  · exact (operation_takes path own ofPath hmethod hoperation).mono fun h => h operation rfl

theorem flatMap_names_filterMap (found : List (Option Operation)) :
    found.flatMap (fun result => result.toList.map (·.name))
      = (found.filterMap id).map (·.name) := by
  induction found with
  | nil => rfl
  | cons result found ih => cases result <;> simp [ih]

theorem pathOperations_takes (path : String) (item : Node) :
    TakesNames spec (fun operations => ∀ o ∈ operations, o ∈ spec.operations)
      (fun operations => operations.map (·.name)) (s.pathOperations path item) := by
  intro p operations p' hrun
  obtain ⟨fields, ofPath, found, -, -, hfound, rfl⟩ := pathOperations_ok hrun
  have htakes : Takes spec _ _ p p' := TakesNames.mapM
    (fun method hmethod => methodOperation?_takes path fields ofPath hmethod) hfound
  dsimp only at htakes
  rw [flatMap_names_filterMap] at htakes
  refine htakes.mono ?_
  rintro hall _ hresult o rfl
  exact hall o (List.mem_filterMap.mpr ⟨some o, hresult, rfl⟩)

/-- **The operations of all paths** have the names that were taken for them, in order. -/
theorem operations_takes (paths : Fields Node) :
    TakesNames spec (fun operations => ∀ o ∈ operations, o ∈ spec.operations)
      (fun operations => operations.map (·.name)) (s.operations paths) := by
  intro p operations p' hrun
  obtain ⟨found, p₁, hfound, hrun⟩ := bind_ok.mp hrun
  obtain ⟨rfl, rfl⟩ := pure_ok.mp hrun
  have htakes : Takes spec _ _ p _ :=
    TakesNames.mapM (fun e _ => pathOperations_takes e.1 e.2) hfound
  dsimp only at htakes ⊢
  rw [List.map_flatten, ← List.flatMap_def]
  exact htakes.mono fun hall ofPath hofPath o ho =>
    hall o (List.mem_flatten.mpr ⟨ofPath, hofPath, ho⟩)

end Scope

/-! ### The whole document -/

/-- A model for a schema of the whole document has a name made from that of the schema. -/
theorem isMadeFrom_modelNames {schemas : List String} {name : String}
    (h : name ∈ (modelNames schemas).map Prod.snd) : ∃ key ∈ schemas, IsMadeFrom name key := by
  have hmade : ∀ e ∈ modelNames schemas, IsMadeFrom e.2 e.1 := by
    refine modelNames_induction (P := fun named => ∀ e ∈ named, IsMadeFrom e.2 e.1)
      (fun _ he => nomatch he) ?_ schemas
    intro named key hnamed e he
    rcases List.mem_append.mp he with he | he
    · exact hnamed e he
    · rw [List.mem_singleton.mp he]
      exact isMadeFrom_freeModelName _ key
  obtain ⟨e, he, rfl⟩ := List.mem_map.mp h
  refine ⟨e.1, ?_, hmade e he⟩
  rw [← keys_modelNames schemas]
  exact Fields.mem_keys_of_mem he

theorem Scope.interface_takes {s : Scope} {parts : Scope.Parts} {spec : ApiSpec}
    {p p' : Progress} (h : (s.interface parts).run p = .ok (spec, p')) :
    Takes spec True (spec.operations.map (·.name)) p p' := by
  obtain ⟨p₁, paths, hcomponents, hoperations, -⟩ := Scope.interface_ok h
  have hfirst : Takes spec True [] p p₁ := Scope.components_takesHints parts.schemas hcomponents
  exact (hfirst.trans (Scope.operations_takes paths hoperations)).mono
    fun _ => ⟨trivial, fun _ ho => ho⟩

/-- **The operations of an interface** have names of their own, in small letters. -/
theorem operationNames_of_extract {d : Canonical.CanonicalDocument} {spec : ApiSpec}
    (h : extract d = .ok spec) :
    (spec.operations.map (·.name)).Nodup ∧ ∀ o ∈ spec.operations, IsSnakeName o.name := by
  obtain ⟨s, parts, p, -, -, hrun⟩ := extract_ok h
  have htakes := Scope.interface_takes hrun
  have hnames : p.operations = (spec.operations.map (·.name)).reverse := by
    simpa using htakes.operations
  refine ⟨?_, fun o ho => ?_⟩
  · rw [← List.nodup_reverse, ← hnames]
    exact htakes.distinct List.nodup_nil
  · refine htakes.spelled (fun _ hname => nomatch hname) o.name ?_
    rw [hnames]
    exact List.mem_reverse.mpr (List.mem_map_of_mem ho)

/-- **The schemas of an interface** have names made from those in the document, or from hints. -/
theorem schemaNames_of_extract {d : Canonical.CanonicalDocument} {spec : ApiSpec}
    (h : extract d = .ok spec) :
    ∃ s parts, prepare {} d = .ok (s, parts) ∧ ∀ name ∈ Fields.keys spec.schemas,
      (∃ key ∈ Fields.keys parts.schemas, IsMadeFrom name key) ∨ NamedAfterHint spec name := by
  obtain ⟨s, parts, p, hprepare, hrun, hlost⟩ := noneLost_of_extract h
  refine ⟨s, parts, hprepare, fun name hname => ?_⟩
  obtain ⟨taken, htaken, hafter⟩ := (Scope.interface_takes hrun).models
  have hmem := hlost.taken.mem_iff.mp hname
  rw [htaken] at hmem
  rcases List.mem_append.mp hmem with hmem | hmem
  · exact Or.inr (hafter (fun e he => hlost.written ▸ he) trivial name hmem)
  · rw [hlost.models] at hmem
    exact Or.inl (isMadeFrom_modelNames hmem)

end ApiClientGen.Extraction
