/-
The identifiers of the arguments of a method.

An argument has the identifier made from the name of its parameter, and where that is taken it is
marked with the place of the parameter.  It is never `self`, and the body has an identifier that
no parameter has.  But a mark is tried only once.  A parameter that finds both of its identifiers
taken is given one of another argument, and the method cannot be defined.  Names that differ may
have one identifier, so that this happens to parameters with names and places of their own.
-/
import ApiClientGen.Client.Methods
import ApiClientGen.Proofs.Extraction.OperationSources
import ApiClientGen.Proofs.Naming.SnakeNames

namespace ApiClientGen.Client

open ApiClientGen.Canonical ApiClientGen.Extraction ApiClientGen.Naming ApiClientGen.Spec
  ApiClientGen.Text

variable {used used' : List String} {p q : Parameter} {ps : List Parameter} {x : String}

/-! ### Marks -/

/-- The identifier of a parameter with its place behind it. -/
def markedIdentifier (p : Parameter) : String := identifier p.name ++ "_" ++ p.location.name

theorem argumentIdentifier_eq (used : List String) (p : Parameter) :
    argumentIdentifier used p
      = if identifier p.name ∈ used then markedIdentifier p else identifier p.name := by
  simp [argumentIdentifier, markedIdentifier]

/-- Places are told apart by the ends of their names, and none of them ends like `self` does. -/
theorem getLast?_markedIdentifier (p : Parameter) :
    (markedIdentifier p).toList.getLast?
      = some (match p.location with
        | .path => 'h'
        | .query => 'y'
        | .header => 'r'
        | .cookie => 'e') := by
  cases hlocation : p.location <;>
    simp [markedIdentifier, hlocation, Location.name]

/-- Marked identifiers differ if identifiers or places do. -/
theorem markedIdentifier_inj (h : markedIdentifier p = markedIdentifier q) :
    identifier p.name = identifier q.name ∧ p.location = q.location := by
  have hlast := congrArg (fun s : String => s.toList.getLast?) h
  rw [getLast?_markedIdentifier, getLast?_markedIdentifier] at hlast
  have hlocation : p.location = q.location := by
    generalize p.location = l, q.location = m at hlast ⊢
    cases l <;> cases m <;> simp at hlast ⊢
  rw [markedIdentifier, markedIdentifier, hlocation, String.append_left_inj,
    String.append_left_inj] at h
  exact ⟨h, hlocation⟩

/-- The ends of identifiers, marked or not. -/
theorem argumentIdentifier_last (used : List String) (p : Parameter) :
    (∃ last, (argumentIdentifier used p).toList.getLast? = some last ∧ isSmallChar last = true)
      ∨ ∃ text, argumentIdentifier used p = text ++ "_"
        ∧ (isReserved text = true ∨ text = "self" ∨ text = "client") := by
  rw [argumentIdentifier_eq]
  split
  · refine Or.inl ⟨_, getLast?_markedIdentifier p, ?_⟩
    cases p.location <;> decide
  · exact identifier_last p.name

theorem markedIdentifier_ne_self (p : Parameter) : markedIdentifier p ≠ "self" := by
  intro h
  have hlast := getLast?_markedIdentifier p
  rw [h] at hlast
  cases hlocation : p.location <;> simp [hlocation] at hlast

/-- No parameter has the identifier that a body has beside a parameter called `body`. -/
theorem argumentIdentifier_ne_body (used : List String) (p : Parameter) :
    argumentIdentifier used p ≠ "body_" := by
  intro h
  rcases argumentIdentifier_last used p with ⟨last, hlast, hsmall⟩ | ⟨text, heq, htaken⟩
  · rw [h] at hlast
    cases hlast
    cases hsmall
  · obtain rfl : "body" = text := (String.append_left_inj "_").mp (h.symm.trans heq)
    revert htaken
    decide

/-- No parameter has the mark behind which arguments are given by name. -/
theorem argumentIdentifier_ne_star (used : List String) (p : Parameter) :
    argumentIdentifier used p ≠ "*" := by
  intro h
  rcases argumentIdentifier_last used p with ⟨last, hlast, hsmall⟩ | ⟨text, heq, -⟩
  · rw [h] at hlast
    cases hlast
    cases hsmall
  · have hlast := congrArg (fun s : String => s.toList.getLast?) (h.symm.trans heq)
    simp at hlast

/-! ### The identifiers of parameters -/

/-- The identifiers that parameters have as arguments, in their order. -/
def parameterIdentifiers (ps : List Parameter) : List String :=
  (parameterArguments ["self"] ps).map Argument.identifier

/-- An identifier depends on nothing but which others are used. -/
theorem parameterArguments_congr (h : ∀ x, x ∈ used ↔ x ∈ used') (ps : List Parameter) :
    parameterArguments used ps = parameterArguments used' ps := by
  induction ps generalizing used used' with
  | nil => rfl
  | cons p ps ih =>
      have hfirst : argumentIdentifier used p = argumentIdentifier used' p := by
        simp only [argumentIdentifier_eq, h]
      have hrest : parameterArguments (argumentIdentifier used' p :: used) ps
          = parameterArguments (argumentIdentifier used' p :: used') ps :=
        ih fun x => by simp [h]
      rw [parameterArguments, parameterArguments, hfirst, hrest]

theorem identifiers_append (used : List String) (before after : List Parameter) :
    (parameterArguments used (before ++ after)).map Argument.identifier
      = (parameterArguments used before).map Argument.identifier
        ++ (parameterArguments ((parameterArguments used before).map Argument.identifier ++ used)
          after).map Argument.identifier := by
  induction before generalizing used with
  | nil => rfl
  | cons p before ih =>
      rw [List.cons_append, parameterArguments, List.map_cons, ih,
        parameterArguments_congr fun x => List.perm_middle.mem_iff]
      rfl

/-- The identifier of the last parameter is made beside those of all others. -/
theorem parameterIdentifiers_append_singleton (ps : List Parameter) (p : Parameter) :
    parameterIdentifiers (ps ++ [p]) = parameterIdentifiers ps
      ++ [argumentIdentifier (parameterIdentifiers ps ++ ["self"]) p] :=
  identifiers_append ["self"] ps [p]

/-- A place in a list with one more member is a place in the list, or that of the new member. -/
theorem eq_or_exists_of_concat_eq {before after : List Parameter}
    (h : ps ++ [p] = before ++ q :: after) :
    (before = ps ∧ q = p ∧ after = []) ∨ ∃ rest, after = rest ++ [p] ∧ ps = before ++ q :: rest := by
  rcases List.eq_nil_or_concat after with rfl | ⟨rest, last, rfl⟩
  · obtain ⟨rfl, hlast⟩ := List.append_inj' h rfl
    cases hlast
    exact Or.inl ⟨rfl, rfl, rfl⟩
  · rw [List.concat_eq_append, ← List.cons_append, ← List.append_assoc] at h
    obtain ⟨rfl, hlast⟩ := List.append_inj' h rfl
    cases hlast
    exact Or.inr ⟨rest, List.concat_eq_append, rfl⟩

/-- An identifier is that of a parameter beside those before it. -/
theorem mem_parameterIdentifiers :
    x ∈ parameterIdentifiers ps ↔ ∃ before p after, ps = before ++ p :: after
      ∧ x = argumentIdentifier (parameterIdentifiers before ++ ["self"]) p := by
  induction ps using List.reverseRecOn with
  | nil => simp [parameterIdentifiers, parameterArguments]
  | append_singleton ps p ih =>
      rw [parameterIdentifiers_append_singleton, List.mem_append, List.mem_singleton, ih]
      constructor
      · rintro (⟨before, q, after, rfl, heq⟩ | heq)
        · exact ⟨before, q, after ++ [p], by simp, heq⟩
        · exact ⟨ps, p, [], rfl, heq⟩
      · rintro ⟨before, q, after, hsplit, heq⟩
        rcases eq_or_exists_of_concat_eq hsplit with ⟨rfl, rfl, -⟩ | ⟨rest, -, rfl⟩
        · exact Or.inr heq
        · exact Or.inl ⟨before, q, rest, rfl, heq⟩

/-- What parameters use is used by more of them. -/
theorem parameterIdentifiers_subset (before after : List Parameter) :
    parameterIdentifiers before ⊆ parameterIdentifiers (before ++ after) := by
  rw [parameterIdentifiers, parameterIdentifiers, identifiers_append]
  exact List.subset_append_left _ _

/-- The identifier made from the name of a parameter is used, by it or by one before it. -/
theorem identifier_mem_parameterIdentifiers (h : p ∈ ps) :
    identifier p.name ∈ parameterIdentifiers ps := by
  obtain ⟨before, after, rfl⟩ := List.append_of_mem h
  by_cases hused : identifier p.name ∈ parameterIdentifiers before
  · exact parameterIdentifiers_subset _ _ hused
  · refine mem_parameterIdentifiers.mpr ⟨before, p, after, rfl, ?_⟩
    rw [argumentIdentifier_eq, if_neg]
    simpa [identifier_ne_self] using hused

/-- A parameter whose identifier is taken uses the marked one. -/
theorem markedIdentifier_mem_parameterIdentifiers {before after : List Parameter}
    (h : identifier p.name ∈ parameterIdentifiers before) :
    markedIdentifier p ∈ parameterIdentifiers (before ++ p :: after) := by
  refine mem_parameterIdentifiers.mpr ⟨before, p, after, rfl, ?_⟩
  rw [argumentIdentifier_eq, if_pos (List.mem_append_left _ h)]

/-- Whatever is used is an identifier, or one that had to be marked. -/
theorem of_mem_parameterIdentifiers (h : x ∈ parameterIdentifiers ps) :
    (∃ p ∈ ps, x = identifier p.name)
      ∨ ∃ before p after, ps = before ++ p :: after ∧ x = markedIdentifier p
        ∧ identifier p.name ∈ parameterIdentifiers before := by
  obtain ⟨before, p, after, rfl, rfl⟩ := mem_parameterIdentifiers.mp h
  rw [argumentIdentifier_eq]
  split
  · rename_i hused
    exact Or.inr ⟨before, p, after, rfl, rfl, by simpa [identifier_ne_self] using hused⟩
  · exact Or.inl ⟨p, by simp, rfl⟩

/-- Neither `self` nor a star is the identifier of a parameter. -/
theorem notMem_parameterIdentifiers (ps : List Parameter) :
    "self" ∉ parameterIdentifiers ps ∧ "*" ∉ parameterIdentifiers ps := by
  constructor
  · intro h
    rcases of_mem_parameterIdentifiers h with ⟨p, -, heq⟩ | ⟨-, p, -, -, heq, -⟩
    · exact identifier_ne_self p.name heq.symm
    · exact markedIdentifier_ne_self p heq.symm
  · intro h
    obtain ⟨before, p, after, -, heq⟩ := mem_parameterIdentifiers.mp h
    exact argumentIdentifier_ne_star _ p heq.symm

/-! ### Identifiers of their own -/

/-- **Both identifiers of a parameter are taken** by the parameters before it. -/
def NoneLeft (before : List Parameter) (p : Parameter) : Prop :=
  identifier p.name ∈ parameterIdentifiers before
    ∧ markedIdentifier p ∈ parameterIdentifiers before

/-- The identifier of one more parameter is taken if both are. -/
theorem argumentIdentifier_mem_iff (before : List Parameter) (p : Parameter) :
    argumentIdentifier (parameterIdentifiers before ++ ["self"]) p ∈ parameterIdentifiers before
      ↔ NoneLeft before p := by
  rw [argumentIdentifier_eq, NoneLeft]
  split
  · rename_i hused
    have htaken : identifier p.name ∈ parameterIdentifiers before := by
      simpa [identifier_ne_self] using hused
    simp [htaken]
  · rename_i hused
    have hfree : identifier p.name ∉ parameterIdentifiers before :=
      fun htaken => hused (List.mem_append_left _ htaken)
    simp [hfree]

/-- Parameters have identifiers of their own as long as one of each is left. -/
theorem nodup_parameterIdentifiers :
    (parameterIdentifiers ps).Nodup
      ↔ ∀ before p after, ps = before ++ p :: after → ¬ NoneLeft before p := by
  induction ps using List.reverseRecOn with
  | nil => simp [parameterIdentifiers, parameterArguments]
  | append_singleton ps p ih =>
      rw [parameterIdentifiers_append_singleton, ← List.concat_eq_append, List.nodup_concat, ih,
        argumentIdentifier_mem_iff]
      constructor
      · rintro ⟨hlast, hall⟩ before q after hsplit
        rcases eq_or_exists_of_concat_eq hsplit with ⟨rfl, rfl, -⟩ | ⟨rest, -, rfl⟩
        · exact hlast
        · exact hall before q rest rfl
      · intro hall
        refine ⟨hall ps p [] rfl, fun before q after hsplit => hall before q (after ++ [p]) ?_⟩
        rw [hsplit]
        simp

/--
Where no identifier looks like a marked one, it takes three parameters with one identifier to use
up both of the last one's, and the place of the last is that of another which had to be marked.
-/
theorem nodup_parameterIdentifiers_of_unmarked
    (hunmarked : ∀ p ∈ ps, ∀ q ∈ ps, identifier p.name ≠ markedIdentifier q) :
    (parameterIdentifiers ps).Nodup
      ↔ ∀ r p q, [r, p, q].Sublist ps → identifier r.name = identifier p.name →
        identifier p.name = identifier q.name → p.location ≠ q.location := by
  rw [nodup_parameterIdentifiers]
  constructor
  · intro hall r p q hsublist hrp hpq hlocation
    obtain ⟨first, rest, rfl, hr, hsublist⟩ := List.cons_sublist_iff.mp hsublist
    obtain ⟨before, after, rfl, hp, hq⟩ := List.cons_sublist_iff.mp hsublist
    obtain ⟨before, between, rfl⟩ := List.append_of_mem hp
    obtain ⟨between', after, rfl⟩ := List.append_of_mem (List.singleton_sublist.mp hq)
    have htaken : identifier p.name ∈ parameterIdentifiers (first ++ before) :=
      parameterIdentifiers_subset _ _ (hrp ▸ identifier_mem_parameterIdentifiers hr)
    have hmarked : markedIdentifier p = markedIdentifier q := by
      rw [markedIdentifier, markedIdentifier, hpq, hlocation]
    refine hall (first ++ before ++ p :: (between ++ between')) q after (by simp) ⟨?_, ?_⟩
    · exact hpq ▸ identifier_mem_parameterIdentifiers (by simp)
    · exact hmarked ▸ markedIdentifier_mem_parameterIdentifiers htaken
  · rintro hall before q after rfl ⟨-, hmarked⟩
    rcases of_mem_parameterIdentifiers hmarked with ⟨p, hp, heq⟩ | ⟨first, p, rest, rfl, heq, htaken⟩
    · exact hunmarked p (by simp [hp]) q (by simp) heq.symm
    obtain ⟨hpq, hlocation⟩ := markedIdentifier_inj heq
    rcases of_mem_parameterIdentifiers htaken with ⟨r, hr, hrp⟩ | ⟨_, r, _, rfl, hrp, -⟩
    · obtain ⟨before, between, rfl⟩ := List.append_of_mem hr
      refine hall r p q ?_ hrp.symm hpq.symm hlocation.symm
      simp only [List.append_assoc, List.cons_append]
      refine List.Sublist.trans ?_ (List.sublist_append_right before _)
      refine .cons_cons r (List.Sublist.trans ?_ (List.sublist_append_right between _))
      refine .cons_cons p (List.Sublist.trans ?_ (List.sublist_append_right rest _))
      exact .cons_cons q (List.nil_sublist _)
    · exact hunmarked p (by simp) r (by simp) hrp

/-! ### The arguments of operations -/

/-- The identifiers of the arguments of the method for an operation, in their order. -/
def argumentIdentifiers (o : Operation) : List String :=
  (operationArguments o).map Argument.identifier

/-- The body has one of two identifiers, and no parameter has it. -/
theorem identifier_bodyArgument (ps : List Parameter) (body : RequestBody) :
    ∃ identifier ∈ ["body", "body_"], identifier ∉ parameterIdentifiers ps
      ∧ (bodyArgument (parameterArguments ["self"] ps) body).identifier = identifier := by
  have hused : ((parameterArguments ["self"] ps).any fun a => a.identifier = "body") = true
      ↔ "body" ∈ parameterIdentifiers ps := by
    simp [parameterIdentifiers]
  by_cases hbody : "body" ∈ parameterIdentifiers ps
  · refine ⟨"body_", by simp, fun hmem => ?_, if_pos (hused.mpr hbody)⟩
    obtain ⟨before, p, -, -, heq⟩ := mem_parameterIdentifiers.mp hmem
    exact argumentIdentifier_ne_body _ p heq.symm
  · exact ⟨"body", by simp, hbody, if_neg fun hmem => hbody (hused.mp hmem)⟩

/-- The body adds an identifier of its own. -/
theorem argumentIdentifiers_spec (o : Operation) :
    "self" ∉ argumentIdentifiers o ∧ "*" ∉ argumentIdentifiers o
      ∧ ((argumentIdentifiers o).Nodup ↔ (parameterIdentifiers o.parameters).Nodup) := by
  obtain ⟨hself, hstar⟩ := notMem_parameterIdentifiers o.parameters
  unfold argumentIdentifiers operationArguments
  cases o.body with
  | none =>
      simp only [Option.map_none, Option.toList_none, List.append_nil]
      exact ⟨hself, hstar, Iff.rfl⟩
  | some body =>
      obtain ⟨identifier, hidentifier, hfree, heq⟩ := identifier_bodyArgument o.parameters body
      have hsplit : (parameterArguments ["self"] o.parameters ++ (Option.map (bodyArgument
            (parameterArguments ["self"] o.parameters)) (some body)).toList).map Argument.identifier
          = (parameterIdentifiers o.parameters).concat identifier := by
        simp [parameterIdentifiers, heq]
      have hother : identifier ≠ "self" ∧ identifier ≠ "*" := by
        rcases List.mem_pair.mp hidentifier with rfl | rfl <;> decide
      rw [hsplit, List.nodup_concat, List.concat_eq_append, List.mem_append, List.mem_append,
        List.mem_singleton, List.mem_singleton]
      exact ⟨not_or.mpr ⟨hself, hother.1.symm⟩, not_or.mpr ⟨hstar, hother.2.symm⟩,
        and_iff_right hfree⟩

/-- The parameters of a method are the object itself, perhaps a star, and the arguments. -/
theorem perm_names_methodParameters (arguments : List Argument) :
    ∃ star, (star = [] ∨ star = ["*"]) ∧ ((methodParameters arguments).map Code.Parameter.name).Perm
      ("self" :: (star ++ arguments.map Argument.identifier)) := by
  have hperm := (List.filter_append_perm (fun a : Argument => a.required) arguments).map
    Argument.identifier
  rw [List.map_append] at hperm
  by_cases hoptional : arguments.filter (fun a => !a.required) = []
  · refine ⟨[], Or.inl rfl, ?_⟩
    rw [hoptional, List.map_nil, List.append_nil] at hperm
    simpa [methodParameters, hoptional, Function.comp_def] using hperm
  · refine ⟨["*"], Or.inr rfl, ?_⟩
    simp only [methodParameters, List.isEmpty_map, List.isEmpty_iff, hoptional, if_false,
      List.cons_append, List.nil_append, List.map_cons, List.map_append, List.map_map,
      Function.comp_def]
    exact (List.perm_middle.trans (hperm.cons "*")).cons "self"

/-- The parameters of a method have names of their own if its arguments have. -/
theorem nodup_parameters_operationMethod (o : Operation) :
    ((operationMethod o).parameters.map Code.Parameter.name).Nodup
      ↔ (argumentIdentifiers o).Nodup := by
  obtain ⟨hself, hstar, -⟩ := argumentIdentifiers_spec o
  obtain ⟨star, hmarks, hperm⟩ := perm_names_methodParameters (operationArguments o)
  rw [operationMethod, hperm.nodup_iff]
  change ("self" :: (star ++ argumentIdentifiers o)).Nodup ↔ _
  rcases hmarks with rfl | rfl
  · simp [hself]
  · simp [hself, hstar]

/-- **The parameters of an operation differ** by their names or their places. -/
theorem nodup_parameterKeys_of_extract {d : CanonicalDocument} {spec : ApiSpec}
    (h : extract d = .ok spec) {o : Operation} (ho : o ∈ spec.operations) :
    (o.parameters.map Scope.parameterKey).Nodup := by
  obtain ⟨s, parts, p, -, -, hrun⟩ := extract_ok h
  obtain ⟨paths, -, hoperations⟩ := Scope.interface_mayGive ⟨_, _, hrun⟩
  obtain ⟨e, -, method, -, hcomes⟩ := (Scope.operations_mayGive hoperations).1 o ho
  obtain ⟨fields, ofPath, own, -, -, -, hoperation⟩ := hcomes.run
  obtain ⟨-, -, own, -, hparameters⟩ := Scope.operation_mayGive hoperation
  obtain ⟨found, -, hlatest⟩ := Scope.parameters_mayGive hparameters
  rw [hlatest]
  exact nodup_map_latest _ _

/--
**When the arguments of a method have identifiers of their own**: for every operation, none of
them is `self`, and they differ if and only if no parameter finds both its identifier and its
marked one taken by the parameters before it, whatever the body is.  Where no parameter has an
identifier that looks like the marked one of a parameter, they differ if and only if there are no
three parameters with one identifier, the last two of them at the same place.  The method has
parameters with names of their own in the same cases, and no others.
-/
theorem argumentIdentifiers_nodup_iff (o : Operation) :
    "self" ∉ argumentIdentifiers o
      ∧ ((argumentIdentifiers o).Nodup
        ↔ ∀ before p after, o.parameters = before ++ p :: after → ¬ NoneLeft before p)
      ∧ ((∀ p ∈ o.parameters, ∀ q ∈ o.parameters, identifier p.name ≠ markedIdentifier q) →
        ((argumentIdentifiers o).Nodup
          ↔ ∀ r p q, [r, p, q].Sublist o.parameters → identifier r.name = identifier p.name →
            identifier p.name = identifier q.name → p.location ≠ q.location))
      ∧ (((operationMethod o).parameters.map Code.Parameter.name).Nodup
        ↔ (argumentIdentifiers o).Nodup) := by
  obtain ⟨hself, -, hnodup⟩ := argumentIdentifiers_spec o
  exact ⟨hself, hnodup.trans nodup_parameterIdentifiers, fun hunmarked =>
    hnodup.trans (nodup_parameterIdentifiers_of_unmarked hunmarked),
    nodup_parameters_operationMethod o⟩

/-- Users that are looked up by three spellings of one name. -/
def usersDocument : CanonicalDocument where
  info := [("title", .string "Users"), ("version", .string "1")]
  paths := [("/users", .mapping [("get", .mapping [
    ("operationId", .string "list_users"),
    ("parameters", .list [
      .mapping [("name", .string "user-id"), ("in", .string "query")],
      .mapping [("name", .string "user_id"), ("in", .string "query")],
      .mapping [("name", .string "userId"), ("in", .string "query")]]),
    ("responses", .mapping [])])])]

/-- The parameters and the identifiers of the arguments, for each operation of a document. -/
def argumentsOf (d : CanonicalDocument) :
    Option (List (List (String × Location) × List String)) :=
  (extract d).toOption.map fun spec =>
    spec.operations.map fun o => (o.parameters.map Scope.parameterKey, argumentIdentifiers o)

/-- **Two arguments have one identifier**, although their parameters have names of their own. -/
theorem sameIdentifier_usersDocument :
    argumentsOf usersDocument = some [
        ([("user-id", .query), ("user_id", .query), ("userId", .query)],
          ["user_id", "user_id_query", "user_id_query"])]
      ∧ ¬ ∀ d spec, extract d = .ok spec → ∀ o ∈ spec.operations,
        (o.parameters.map Scope.parameterKey).Nodup →
          (argumentIdentifiers o).Nodup ∧ "self" ∉ argumentIdentifiers o := by
  refine ⟨by decide +kernel, fun h => ?_⟩
  obtain ⟨spec, hspec⟩ := except_exists_ok (x := extract usersDocument) (by decide +kernel)
  have hidentifiers : (extract usersDocument).toOption.map (fun spec =>
      spec.operations.map argumentIdentifiers)
        = some [["user_id", "user_id_query", "user_id_query"]] := by decide +kernel
  rw [hspec] at hidentifiers
  simp only [Except.toOption, Option.map_some, Option.some.injEq, List.map_eq_singleton_iff]
    at hidentifiers
  obtain ⟨o, hall, heq⟩ := hidentifiers
  have ho : o ∈ spec.operations := by simp [hall]
  have hnodup := (h _ _ hspec o ho (nodup_parameterKeys_of_extract hspec ho)).1
  rw [heq] at hnodup
  exact absurd hnodup (by decide)

end ApiClientGen.Client
