/-
Where operations and their parameters come from.

An operation comes of a path and of a method that the path has a mapping for, and every such
method gives one.  Its parameters are those that were found last for each name and location.
What was kept in mind before a part of the extraction and what is kept in mind after it does not
matter here; only what a part may give is asked.
-/
import ApiClientGen.Proofs.Document.Related
import ApiClientGen.Proofs.Extraction.Interfaces

namespace ApiClientGen.Extraction

open ApiClientGen.Canonical ApiClientGen.Document ApiClientGen.Naming ApiClientGen.Reference
  ApiClientGen.Spec

/-! ### What a part of an extraction may give -/

/-- A part of an extraction may give a result, whatever is kept in mind before and after. -/
def Extract.MayGive {α : Type} (m : Extract α) (a : α) : Prop := ∃ p p', m.run p = .ok (a, p')

namespace Extract.MayGive

variable {α β : Type} {a b : β}

theorem of_pure (h : MayGive (pure a) b) : a = b := by
  obtain ⟨p, p', h⟩ := h
  exact (pure_ok.mp h).1

theorem of_bind {m : Extract α} {f : α → Extract β} (h : MayGive (m >>= f) b) :
    ∃ a, MayGive m a ∧ MayGive (f a) b := by
  obtain ⟨p, p', h⟩ := h
  obtain ⟨a, p₁, hm, hf⟩ := bind_ok.mp h
  exact ⟨a, ⟨p, p₁, hm⟩, ⟨p₁, p', hf⟩⟩

theorem of_lift_bind {e : Except Failure α} {f : α → Extract β} (h : MayGive (liftM e >>= f) b) :
    ∃ a, e = .ok a ∧ MayGive (f a) b := by
  obtain ⟨p, p', h⟩ := h
  obtain ⟨a, he, hf⟩ := lift_bind_ok.mp h
  exact ⟨a, he, ⟨p, p', hf⟩⟩

/-- Of several things in a row, each may give its own result. -/
theorem of_mapM {f : α → Extract β} {l : List α} {bs : List β} (h : MayGive (l.mapM f) bs) :
    List.Forall₂ (fun a b => MayGive (f a) b) l bs := by
  obtain ⟨p, p', h⟩ := h
  induction l generalizing p bs with
  | nil =>
      obtain ⟨rfl, -⟩ := mapM_nil_ok.mp h
      exact .nil
  | cons a l ih =>
      obtain ⟨b, rest, p₁, hb, hrest, rfl⟩ := mapM_cons_ok.mp h
      exact .cons ⟨p, p₁, hb⟩ (ih p₁ hrest)

end Extract.MayGive

open Extract

namespace Scope

variable {s : Scope}

/-! ### Parameters -/

/-- **The parameters of an operation** are the latest of those that were found. -/
theorem parameters_mayGive {hint : String} {nodes : List Node} {parameters : List Parameter}
    (h : MayGive (s.parameters hint nodes) parameters) :
    ∃ found, List.Forall₂ (fun n r => MayGive (s.parameter? hint n) r) nodes found
      ∧ parameters = latest parameterKey (found.filterMap id) := by
  obtain ⟨p, p', h⟩ := h
  obtain ⟨found, hfound, hlatest⟩ := parameters_eq_latest h
  exact ⟨found, MayGive.of_mapM ⟨p, p', hfound⟩, hlatest⟩

/-- A text that is not empty is the text of its node. -/
theorem textOf_string (hself : ∀ n, n.ref? = none → s.follow n = .ok n) (place : Place)
    {text : String} (hne : text ≠ "") : s.textOf (some ⟨place, .string text⟩) = .ok (some text) := by
  have hfollow := hself ⟨place, .string text⟩ rfl
  show ((s.follow _ >>= _) >>= _) >>= _ = _
  rw [hfollow]
  show Except.ok (Option.filter _ (some text)) = _
  simp [Option.filter, hne]

theorem anyTextOf_string (hself : ∀ n, n.ref? = none → s.follow n = .ok n) (place : Place)
    (text : String) : s.anyTextOf (some ⟨place, .string text⟩) = .ok (some text) := by
  have hfollow := hself ⟨place, .string text⟩ rfl
  show (s.follow _ >>= _) >>= _ = _
  rw [hfollow]
  rfl

/-- **A parameter is read off its node**, if that has a name, a location and a schema. -/
structure ReadOff (s : Scope) (hint : String) (target : Node) (q : Parameter) : Prop where
  required : q.required = (q.location = .path || isTrue (Fields.get? target.fields "required"))
  description : s.textOf (Fields.get? target.fields "description") = .ok q.description
  type : MayGive (s.typeOfSomething (Fields.get? target.fields "schema")
    (hint ++ pascalCase q.name)) q.type

theorem parameter?_mayGive (hself : ∀ n, n.ref? = none → s.follow n = .ok n) {hint : String}
    {n target : Node} {name : String} {location : Location} {namePlace placePlace : Place}
    {r : Option Parameter} (hn : s.follow n = .ok target)
    (hname : Fields.get? target.fields "name" = some ⟨namePlace, .string name⟩) (hne : name ≠ "")
    (hplace : Fields.get? target.fields "in" = some ⟨placePlace, .string location.name⟩)
    (hschema : isNothing (Fields.get? target.fields "schema") = false)
    (h : MayGive (s.parameter? hint n) r) :
    ∃ q, r = some q ∧ parameterKey q = (name, location) ∧ s.ReadOff hint target q := by
  have hlocation : Location.ofName? location.name = some location := by
    cases location <;> decide
  have hfields : s.fieldsOf (some n) = .ok target.fields := by
    show (s.follow n >>= _) >>= _ = _
    rw [hn]
    rfl
  unfold parameter? at h
  obtain ⟨fields, hfound, h⟩ := h.of_lift_bind
  obtain rfl : target.fields = fields := by simpa [hfields] using hfound
  obtain ⟨text, htext, h⟩ := h.of_lift_bind
  rw [hname, textOf_string hself _ hne] at htext
  obtain ⟨place, hin, h⟩ := h.of_lift_bind
  rw [hplace, anyTextOf_string hself] at hin
  cases htext
  cases hin
  simp only [Option.bind_some, hlocation, parameterSchema, hschema] at h
  obtain ⟨schema, hown, h⟩ := h.of_lift_bind
  cases hown
  obtain ⟨type, htype, h⟩ := h.of_bind
  obtain ⟨description, hdescription, h⟩ := h.of_lift_bind
  exact ⟨_, h.of_pure.symm, rfl, rfl, hdescription, htype⟩

/-! ### Operations -/

theorem operation_mayGive {path method : String} {fields : Fields Node} {ofPath : List Node}
    {o : Operation} (h : MayGive (s.operation path method fields ofPath) o) :
    o.path = path ∧ o.method = method.toUpper
      ∧ ∃ own, s.itemsOf (Fields.get? fields "parameters") = .ok own
        ∧ MayGive (s.parameters (pascalCase o.name) (ofPath ++ own)) o.parameters := by
  unfold Scope.operation at h
  obtain ⟨identifier, -, h⟩ := h.of_lift_bind
  obtain ⟨name, -, h⟩ := h.of_bind
  obtain ⟨summary, -, h⟩ := h.of_lift_bind
  obtain ⟨description, -, h⟩ := h.of_lift_bind
  obtain ⟨tags, -, h⟩ := h.of_lift_bind
  obtain ⟨own, hown, h⟩ := h.of_lift_bind
  obtain ⟨parameters, hparameters, h⟩ := h.of_bind
  obtain ⟨body, -, h⟩ := h.of_bind
  obtain ⟨response, -, h⟩ := h.of_bind
  obtain rfl := h.of_pure
  exact ⟨rfl, rfl, own, hown, hparameters⟩

/-- **An operation comes of the node of a path**, for a method that the path has a mapping for. -/
structure ComesOf (s : Scope) (path method : String) (item : Node) (o : Operation) : Prop where
  run : ∃ fields ofPath own, s.fieldsOf (some item) = .ok fields
    ∧ s.itemsOf (Fields.get? fields "parameters") = .ok ofPath
    ∧ s.fieldsOf (Fields.get? fields method) = .ok own
    ∧ MayGive (s.operation path method own ofPath) o

/-- Whether the node of a path has an operation for a method. -/
def HasOperation (s : Scope) (item : Node) (method : String) : Prop :=
  ∃ fields, s.fieldsOf (some item) = .ok fields ∧ s.isMapping (Fields.get? fields method) = .ok true

theorem methodOperation?_mayGive {path method : String} {fields : Fields Node} {ofPath : List Node}
    {r : Option Operation} (h : MayGive (s.methodOperation? path fields ofPath method) r) :
    (∀ o, r = some o → ∃ own, s.fieldsOf (Fields.get? fields method) = .ok own
        ∧ MayGive (s.operation path method own ofPath) o)
      ∧ (s.isMapping (Fields.get? fields method) = .ok true → r.isSome = true) := by
  unfold methodOperation? at h
  obtain ⟨isMapping, hmapping, h⟩ := h.of_lift_bind
  cases isMapping with
  | false =>
      obtain rfl := h.of_pure
      refine ⟨fun o ho => (nomatch ho), fun htrue => ?_⟩
      rw [hmapping] at htrue
      cases htrue
  | true =>
      obtain ⟨own, hown, h⟩ := h.of_lift_bind
      obtain ⟨o, ho, h⟩ := h.of_bind
      obtain rfl := h.of_pure
      refine ⟨fun o' ho' => ?_, fun _ => rfl⟩
      cases ho'
      exact ⟨own, hown, ho⟩

/-- **The operations of a path**: one for each method that it has one for. -/
theorem pathOperations_mayGive {path : String} {item : Node} {operations : List Operation}
    (h : MayGive (s.pathOperations path item) operations) :
    (∀ o ∈ operations, ∃ method ∈ methods, s.ComesOf path method item o)
      ∧ ∀ method ∈ methods, s.HasOperation item method →
        ∃ o ∈ operations, s.ComesOf path method item o := by
  unfold pathOperations at h
  obtain ⟨fields, hfields, h⟩ := h.of_lift_bind
  obtain ⟨ofPath, hofPath, h⟩ := h.of_lift_bind
  obtain ⟨found, hfound, h⟩ := h.of_bind
  obtain rfl := h.of_pure
  have hruns := hfound.of_mapM
  constructor
  · intro o ho
    obtain ⟨r, hr, rfl⟩ := List.mem_filterMap.mp ho
    obtain ⟨method, hmethod, hrun⟩ := exists_of_forall₂_right hruns hr
    obtain ⟨own, hown, hoperation⟩ := (methodOperation?_mayGive hrun).1 o rfl
    exact ⟨method, hmethod, ⟨fields, ofPath, own, hfields, hofPath, hown, hoperation⟩⟩
  · rintro method hmethod ⟨fields', hfields', hmapping⟩
    rw [hfields] at hfields'
    cases hfields'
    obtain ⟨r, hr, hrun⟩ := exists_of_forall₂_left hruns hmethod
    obtain ⟨hcomes, hsome⟩ := methodOperation?_mayGive hrun
    obtain ⟨o, rfl⟩ := Option.isSome_iff_exists.mp (hsome hmapping)
    obtain ⟨own, hown, hoperation⟩ := hcomes o rfl
    exact ⟨o, List.mem_filterMap.mpr ⟨_, hr, rfl⟩,
      ⟨fields, ofPath, own, hfields, hofPath, hown, hoperation⟩⟩

/-- **The operations of all paths.** -/
theorem operations_mayGive {paths : Fields Node} {operations : List Operation}
    (h : MayGive (s.operations paths) operations) :
    (∀ o ∈ operations, ∃ e ∈ paths, ∃ method ∈ methods, s.ComesOf e.1 method e.2 o)
      ∧ ∀ e ∈ paths, ∀ method ∈ methods, s.HasOperation e.2 method →
        ∃ o ∈ operations, s.ComesOf e.1 method e.2 o := by
  obtain ⟨found, hfound, h⟩ := h.of_bind
  obtain rfl := h.of_pure
  have hruns := hfound.of_mapM
  constructor
  · intro o ho
    obtain ⟨ofItem, hofItem, ho⟩ := List.mem_flatten.mp ho
    obtain ⟨e, he, hrun⟩ := exists_of_forall₂_right hruns hofItem
    exact ⟨e, he, (pathOperations_mayGive hrun).1 o ho⟩
  · intro e he method hmethod hhas
    obtain ⟨ofItem, hofItem, hrun⟩ := exists_of_forall₂_left hruns he
    obtain ⟨o, ho, hcomes⟩ := (pathOperations_mayGive hrun).2 method hmethod hhas
    exact ⟨o, List.mem_flatten.mpr ⟨ofItem, hofItem, ho⟩, hcomes⟩

/-! ### Which operations there are -/

/-- The path and the method that an operation stands for. -/
def endpoint (o : Operation) : String × String := (o.path, o.method)

/-- A path has an operation for a method if it has a mapping for it. -/
theorem methodOperation?_listed {path method : String} {fields : Fields Node} {ofPath : List Node}
    {r : Option Operation} (h : MayGive (s.methodOperation? path fields ofPath method) r) :
    ∃ isMapping, s.isMapping (Fields.get? fields method) = .ok isMapping
      ∧ r.map endpoint = if isMapping then some (path, method.toUpper) else none := by
  unfold methodOperation? at h
  obtain ⟨isMapping, hmapping, h⟩ := h.of_lift_bind
  refine ⟨isMapping, hmapping, ?_⟩
  cases isMapping with
  | false =>
      obtain rfl := h.of_pure
      rfl
  | true =>
      obtain ⟨own, hown, h⟩ := h.of_lift_bind
      obtain ⟨o, ho, h⟩ := h.of_bind
      obtain rfl := h.of_pure
      obtain ⟨hpath, hmethod, -⟩ := operation_mayGive ho
      rw [Option.map_some, endpoint, hpath, hmethod]
      rfl

/-- The operations of a path, in the order of the methods. -/
theorem pathOperations_listed {path : String} {item : Node} {operations : List Operation}
    {holds : String → Bool} (h : MayGive (s.pathOperations path item) operations)
    (hholds : ∀ fields, s.fieldsOf (some item) = .ok fields → ∀ method ∈ methods, ∀ isMapping,
      s.isMapping (Fields.get? fields method) = .ok isMapping → isMapping = holds method) :
    operations.map endpoint = (methods.filter holds).map fun method => (path, method.toUpper) := by
  unfold pathOperations at h
  obtain ⟨fields, hfields, h⟩ := h.of_lift_bind
  obtain ⟨ofPath, -, h⟩ := h.of_lift_bind
  obtain ⟨found, hfound, h⟩ := h.of_bind
  obtain rfl := h.of_pure
  have hruns := (List.forall₂_and_left _ _).mpr ⟨hholds fields hfields, hfound.of_mapM⟩
  refine map_filterMap_of_forall₂ (hruns.imp ?_)
  rintro method r ⟨hmethod, hrun⟩
  obtain ⟨isMapping, hmapping, hr⟩ := methodOperation?_listed hrun
  rw [hr, hmethod isMapping hmapping]

/-- **The operations of all paths**, in the order of the paths. -/
theorem operations_listed {paths : Fields Node} {items : Fields Value} {operations : List Operation}
    {holds : Value → String → Bool} (h : MayGive (s.operations paths) operations)
    (hholds : List.Forall₂ (fun e i => e.1 = i.1 ∧ ∀ fields, s.fieldsOf (some e.2) = .ok fields →
      ∀ method ∈ methods, ∀ isMapping, s.isMapping (Fields.get? fields method) = .ok isMapping →
        isMapping = holds i.2 method) paths items) :
    operations.map endpoint = items.flatMap fun i =>
      (methods.filter (holds i.2)).map fun method => (i.1, method.toUpper) := by
  obtain ⟨found, hfound, hresult⟩ := h.of_bind
  obtain rfl := hresult.of_pure
  have hruns := hfound.of_mapM
  clear hresult hfound h
  induction hruns generalizing items with
  | nil =>
      cases hholds
      rfl
  | cons hrun _ ih =>
      cases hholds with
      | cons hfirst hrest =>
          obtain ⟨hpath, hfirst⟩ := hfirst
          rw [List.flatten_cons, List.map_append, List.flatMap_cons, ih hrest,
            pathOperations_listed hrun hfirst, hpath]

theorem interface_mayGive {parts : Parts} {spec : ApiSpec}
    (h : MayGive (s.interface parts) spec) :
    ∃ paths, s.fieldsOf (Fields.get? parts.document "paths") = .ok paths
      ∧ MayGive (s.operations paths) spec.operations := by
  obtain ⟨p, p', hrun⟩ := h
  obtain ⟨p₁, paths, hpaths, -, hoperations, -⟩ := interface_paths_ok hrun
  exact ⟨paths, hpaths, ⟨p₁, p', hoperations⟩⟩

end Scope

end ApiClientGen.Extraction
