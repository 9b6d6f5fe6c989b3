/-
Names that methods look up outside of themselves.

A method leaves out what is not given by a function of the base file, and the annotation of its
response is evaluated when it is called.  An argument with one of these names stands in the way of
what is meant.  The annotation is made of twelve names at most, and those with a capital letter are
out of reach.  An argument has one of the others if and only if the name of a parameter is spelled
like it: neither a mark nor the identifier of a body is such a name.
-/
import ApiClientGen.Proofs.Client.Annotations
import ApiClientGen.Proofs.Client.ArgumentNames
import ApiClientGen.Proofs.Extraction.SchemaTable
import ApiClientGen.Proofs.Naming.Spellings

namespace ApiClientGen.Client

open ApiClientGen.Canonical ApiClientGen.Extraction ApiClientGen.Naming ApiClientGen.Spec
  ApiClientGen.Text

variable {kind : TypeKind} {model : Option String} {item text x : String} {names : List String}

/-! ### The names in the annotation of a response -/

/-- The names in the annotation for a kind; models stand behind the module that they are in. -/
def kindNames : TypeKind → List String
  | .string => ["str"]
  | .integer => ["int"]
  | .number => ["float"]
  | .boolean => ["bool"]
  | .date => ["dt"]
  | .datetime => ["dt"]
  | .binary => ["bytes"]
  | .array => ["List"]
  | .map => ["Dict", "str"]
  | .model => ["models"]
  | .any => ["Any"]

/-- The names in the annotation of a type, but for those in the annotation of its items. -/
def ownNames (kind : TypeKind) (nullable : Bool) : List String :=
  (if nullable = true ∧ kind ≠ .any then ["Optional"] else []) ++ kindNames kind

/-- The names in the annotation of a type, in their order. -/
def typeNames : TypeRef → List String
  | ⟨kind, _, none, nullable⟩ => ownNames kind nullable
  | ⟨kind, _, some item, nullable⟩ =>
    ownNames kind nullable ++ if kind = .array ∨ kind = .map then typeNames item else []

/-- What is behind a dot is no name of its own. -/
theorem namesIn_modelsPrefix (h : IsName text) : namesIn (modelsPrefix ++ text) = ["models"] := by
  have hlist : (modelsPrefix ++ text).toList = "models".toList ++ '.' :: text.toList := by
    simp [modelsPrefix]
  have hmodule : namesFrom false [] "models".toList = ["models"] := by decide
  rw [namesIn, hlist, namesFrom_append (by decide), hmodule,
    namesFrom_word (List.all_eq_true.mp h.2)]
  simp [nameRead]

theorem namesIn_plainTypeText (hmodel : kind = .model → ∃ name, model = some name ∧ IsName name)
    (hitem : item ≠ "") :
    namesIn (plainTypeText modelsPrefix kind model item)
      = kindNames kind ++ if kind = .array ∨ kind = .map then namesIn item else [] := by
  cases kind with
  | array =>
      rw [plainTypeText, wrappedIn, if_neg hitem, namesIn_wrapped (by decide)]
      rfl
  | map =>
      rw [plainTypeText, wrappedIn, if_neg (by simp), namesIn_wrapped (by decide), namesIn_keyed]
      rfl
  | model =>
      obtain ⟨name, rfl, hname⟩ := hmodel rfl
      rw [plainTypeText, Option.getD_some, namesIn_modelsPrefix hname]
      rfl
  | string | integer | number | boolean | date | datetime | binary | any =>
      rw [if_neg (by decide), List.append_nil]
      change namesIn (kindText _) = _
      decide

/-- Only the annotation for any value begins like it. -/
theorem exists_head_plainTypeText (model : Option String) (hkind : kind ≠ .any) (hitem : item ≠ "") :
    ∃ c, (plainTypeText modelsPrefix kind model item).toList.head? = some c ∧ c ≠ 'A' := by
  cases kind with
  | array => exact ⟨'L', by simp [plainTypeText, wrappedIn, hitem], by decide⟩
  | map => exact ⟨'D', by simp [plainTypeText, wrappedIn], by decide⟩
  | model => exact ⟨'m', by simp [plainTypeText, modelsPrefix], by decide⟩
  | any => exact absurd rfl hkind
  | string => exact ⟨'s', by simp [plainTypeText, kindText], by decide⟩
  | integer => exact ⟨'i', by simp [plainTypeText, kindText], by decide⟩
  | number => exact ⟨'f', by simp [plainTypeText, kindText], by decide⟩
  | boolean | binary => exact ⟨'b', by simp [plainTypeText, kindText], by decide⟩
  | date | datetime => exact ⟨'d', by simp [plainTypeText, kindText], by decide⟩

theorem namesIn_nullableText (nullable : Bool) (hne : text ≠ "") :
    nullableText nullable text ≠ ""
      ∧ namesIn (nullableText nullable text)
        = (if nullable = true ∧ text ≠ "Any" then ["Optional"] else []) ++ namesIn text := by
  unfold nullableText
  by_cases hwrapped : nullable = true ∧ text ≠ "Any"
  · rw [if_pos (by simpa using hwrapped), if_pos hwrapped, wrappedIn, if_neg hne,
      namesIn_wrapped (by decide)]
    exact ⟨by simp, rfl⟩
  · rw [if_neg (by simpa using hwrapped), if_neg hwrapped]
    exact ⟨hne, rfl⟩

/-- The names in the annotation of a type that is complete, from those in that for its items. -/
theorem namesIn_complete (hnames : ∀ n ∈ names, IsModelName n) {t : TypeRef}
    (ht : t.Complete names) (hitem : item ≠ "") :
    nullableText t.nullable (plainTypeText modelsPrefix t.kind t.model item) ≠ ""
      ∧ namesIn (nullableText t.nullable (plainTypeText modelsPrefix t.kind t.model item))
        = ownNames t.kind t.nullable
          ++ if t.kind = .array ∨ t.kind = .map then namesIn item else [] := by
  have hmodel : t.kind = .model → ∃ name, t.model = some name ∧ IsName name := by
    intro hkind
    obtain ⟨name, hname, heq⟩ := ht.model hkind
    exact ⟨name, heq, isName_of_isModelName (hnames name hname)⟩
  have hplain := namesIn_plainTypeText hmodel hitem
  have hshape : plainTypeText modelsPrefix t.kind t.model item ≠ ""
      ∧ (plainTypeText modelsPrefix t.kind t.model item = "Any" ↔ t.kind = .any) := by
    by_cases hany : t.kind = .any
    · have htext : plainTypeText modelsPrefix t.kind t.model item = "Any" := by
        rw [hany]
        rfl
      exact ⟨by rw [htext]; decide, iff_of_true htext hany⟩
    · obtain ⟨c, hhead, hc⟩ := exists_head_plainTypeText t.model hany hitem
      refine ⟨fun hempty => ?_, iff_of_false (fun heq => ?_) hany⟩
      · simp [hempty] at hhead
      · rw [heq] at hhead
        exact hc (by simpa using hhead.symm)
  obtain ⟨hne, hnamed⟩ := namesIn_nullableText t.nullable hshape.1
  refine ⟨hne, ?_⟩
  rw [hnamed, hplain, ownNames, List.append_assoc]
  simp only [ne_eq, hshape.2]

/-- **The names in an annotation**, for types whose models have names. -/
theorem namesIn_typeText (hnames : ∀ n ∈ names, IsModelName n) :
    (t : TypeRef) → t.Closed names →
      typeText modelsPrefix t ≠ "" ∧ namesIn (typeText modelsPrefix t) = typeNames t
  | ⟨kind, model, none, nullable⟩, hclosed => by
      have hcomplete := hclosed ⟨kind, model, none, nullable⟩ (by simp [TypeRef.parts])
      have hkind : ¬ (kind = .array ∨ kind = .map) := fun h => by
        simpa using hcomplete.item h
      obtain ⟨hne, heq⟩ := namesIn_complete hnames hcomplete (by decide : "None" ≠ "")
      rw [if_neg hkind, List.append_nil] at heq
      exact ⟨hne, heq⟩
  | ⟨kind, model, some item, nullable⟩, hclosed => by
      have hcomplete := hclosed ⟨kind, model, some item, nullable⟩ (by simp [TypeRef.parts])
      have hitem : item.Closed names := fun u hu => hclosed u (by simp [TypeRef.parts, hu])
      obtain ⟨hitemNe, hitemEq⟩ := namesIn_typeText hnames item hitem
      obtain ⟨hne, heq⟩ := namesIn_complete hnames hcomplete hitemNe
      rw [hitemEq] at heq
      exact ⟨hne, heq⟩

/-! ### The names that a method looks up -/

/-- The function that is called for an argument: what stands between its name and a parenthesis. -/
def calledIn (argument : String) : String :=
  String.ofList (((argument.toList.dropWhile (· != '=')).drop 1).takeWhile (· != '('))

/--
The names outside of a method that are looked up when it is called: those of the functions that its
arguments are made by, which are given by their names and leave out what is missing, and the names
in the annotation of the response.
-/
def outerNames (o : Operation) : List String :=
  (namedArguments (operationArguments o)).map calledIn
    ++ o.response.toList.flatMap fun _ => namesIn (responseText o)

/-- All of these arguments are made by the function that leaves out what is missing. -/
theorem calledIn_of_mem_namedArguments {arguments : List Argument} {a : String}
    (ha : a ∈ namedArguments arguments) : calledIn a = "drop_none" := by
  obtain ⟨e, he, hsome⟩ := List.mem_filterMap.mp ha
  rw [Option.ite_none_right_eq_some] at hsome
  obtain ⟨-, heq⟩ := hsome
  have hkeywords : ∀ e ∈ [(Location.query, "params"), (.header, "headers"), (.cookie, "cookies")],
      e.2.toList.all (· != '=') = true := by decide
  have hkeyword := List.all_eq_true.mp (hkeywords e he)
  have hlist : a.toList = e.2.toList
      ++ '=' :: ("drop_none".toList ++ '(' :: ((argumentMapping arguments e.1).toList ++ [')'])) := by
    rw [← Option.some.inj heq]
    simp
  have hname : ∀ c ∈ "drop_none".toList, (c != '(') = true := List.all_eq_true.mp (by decide)
  rw [calledIn, hlist, List.dropWhile_append_of_pos hkeyword,
    List.dropWhile_cons_of_neg (by decide), List.drop_succ_cons, List.drop_zero,
    List.takeWhile_append_of_pos hname, List.takeWhile_cons_of_neg (by decide), List.append_nil,
    String.ofList_toList]

/-- The outer names in small letters. -/
def smallOuterNames : List String :=
  ["drop_none", "models", "dt", "str", "int", "float", "bool", "bytes"]

/-- The outer names that begin with a capital letter. -/
def capitalOuterNames : List String := ["List", "Dict", "Optional", "Any"]

theorem typeNames_subset : (t : TypeRef) → typeNames t ⊆ smallOuterNames ++ capitalOuterNames
  | ⟨kind, _, item, nullable⟩ => by
      have hown : ownNames kind nullable ⊆ smallOuterNames ++ capitalOuterNames := by
        cases kind <;> cases nullable <;> decide
      cases item with
      | none => exact hown
      | some item =>
          have hitem := typeNames_subset item
          rw [typeNames]
          split
          · exact List.append_subset.mpr ⟨hown, hitem⟩
          · exact List.append_subset.mpr ⟨hown, List.nil_subset _⟩

theorem locations_parameterArguments (used : List String) (ps : List Parameter) :
    (parameterArguments used ps).map Argument.location = ps.map fun p => some p.location := by
  induction ps generalizing used with
  | nil => rfl
  | cons p ps ih => rw [parameterArguments, List.map_cons, List.map_cons, ih]

/-- Arguments stand where parameters do; the body stands nowhere. -/
theorem hasAt_operationArguments {o : Operation} {location : Location} :
    hasAt (operationArguments o) location = true ↔ ∃ p ∈ o.parameters, p.location = location := by
  have hparameters : (∃ a ∈ parameterArguments ["self"] o.parameters, a.location = some location)
      ↔ ∃ p ∈ o.parameters, p.location = location := by
    have hmem := congrArg (some location ∈ ·) (locations_parameterArguments ["self"] o.parameters)
    simpa using hmem
  have hbody : ∀ a ∈ (o.body.map
      (bodyArgument (parameterArguments ["self"] o.parameters))).toList, a.location = none := by
    cases o.body with
    | none => simp
    | some body => simp [bodyArgument]
  rw [hasAt, List.any_eq_true, ← hparameters]
  constructor
  · rintro ⟨a, ha, hlocation⟩
    rcases List.mem_append.mp ha with ha | ha
    · exact ⟨a, ha, of_decide_eq_true hlocation⟩
    · have hnone := hbody a ha
      rw [of_decide_eq_true hlocation] at hnone
      cases hnone
  · rintro ⟨a, ha, hlocation⟩
    exact ⟨a, List.mem_append_left _ ha, decide_eq_true hlocation⟩

/-- Values may be left out of the query, the headers and the cookies, but not of the path. -/
theorem namedArguments_ne_nil_iff (o : Operation) :
    namedArguments (operationArguments o) ≠ [] ↔ ∃ p ∈ o.parameters, p.location ≠ .path := by
  rw [namedArguments, ne_eq, List.filterMap_eq_nil_iff]
  constructor
  · intro hcalls
    by_contra hnone
    refine hcalls fun e he => if_neg fun hat => ?_
    obtain ⟨p, hp, hlocation⟩ := hasAt_operationArguments.mp hat
    refine hnone ⟨p, hp, fun hpath => ?_⟩
    have hplaces : ∀ e ∈ [(Location.query, "params"), (.header, "headers"), (.cookie, "cookies")],
        e.1 ≠ .path := by decide
    exact hplaces e he (hlocation.symm.trans hpath)
  · rintro ⟨p, hp, hpath⟩ hnone
    have hat := hasAt_operationArguments.mpr ⟨p, hp, rfl⟩
    obtain ⟨keyword, hkeyword⟩ : ∃ keyword, (p.location, keyword)
        ∈ [(Location.query, "params"), (.header, "headers"), (.cookie, "cookies")] := by
      cases hlocation : p.location with
      | path => exact absurd hlocation hpath
      | query | header | cookie => simp
    have hcall := hnone _ hkeyword
    rw [if_pos hat] at hcall
    cases hcall

/-! ### Arguments with these names -/

/-- An outer name in small letters is the identifier of what is spelled like it. -/
theorem identifier_eq_iff_of_mem {name : String} (hx : x ∈ smallOuterNames) :
    identifier name = x ↔ snakeCase name = x := by
  have hall : ∀ x ∈ smallOuterNames,
      snakeCase x = x ∧ identifier x = x ∧ x ≠ "" ∧ x ≠ "field" := by decide +kernel
  obtain ⟨hsnake, hself, hne, hfield⟩ := hall x hx
  rw [identifier_eq_iff (isSnakeName_of_snakeCase_eq hsnake hne) hself, spelling_eq_iff hfield hne]

/-- No outer name is a marked identifier. -/
theorem markedIdentifier_notMem (p : Parameter) :
    markedIdentifier p ∉ smallOuterNames ++ capitalOuterNames := by
  have hall : ∀ l ∈ ["path", "query", "header", "cookie"], ∀ n ∈ smallOuterNames ++ capitalOuterNames,
      endsIn n ("_" ++ l) = false := by decide +kernel
  intro hmem
  have hlocation : p.location.name ∈ ["path", "query", "header", "cookie"] := by
    cases p.location <;> decide
  have hends : endsIn (markedIdentifier p) ("_" ++ p.location.name) = true := by
    rw [endsIn, List.isSuffixOf_iff_suffix]
    exact ⟨(identifier p.name).toList, by simp [markedIdentifier]⟩
  rw [hall _ hlocation _ hmem] at hends
  cases hends

/-- What is spelled in small letters is none of the names with a capital letter. -/
theorem mem_smallOuterNames (hx : x ∈ smallOuterNames ++ capitalOuterNames)
    (hsmall : ∀ c ∈ x.toList, isSmallChar c = true ∨ c = '_') : x ∈ smallOuterNames := by
  have hcapitals : ∀ n ∈ capitalOuterNames,
      n.toList.all (fun c => isSmallChar c || c == '_') = false := by
    decide
  refine (List.mem_append.mp hx).resolve_right fun hcapital => ?_
  refine Bool.false_ne_true ((hcapitals _ hcapital).symm.trans (List.all_eq_true.mpr fun c hc => ?_))
  simpa using hsmall c hc

/-- An argument has an outer name if the name of a parameter is spelled like it. -/
theorem mem_argumentIdentifiers_iff {o : Operation} (hx : x ∈ smallOuterNames ++ capitalOuterNames) :
    x ∈ argumentIdentifiers o ↔ x ∈ smallOuterNames ∧ ∃ p ∈ o.parameters, snakeCase p.name = x := by
  have hparameters : x ∈ argumentIdentifiers o ↔ x ∈ parameterIdentifiers o.parameters := by
    have hbodies : ∀ b ∈ ["body", "body_"], b ∉ smallOuterNames ++ capitalOuterNames := by decide
    unfold argumentIdentifiers operationArguments
    rw [List.map_append, List.mem_append]
    refine or_iff_left fun hbody => ?_
    cases hsome : o.body with
    | none => simp [hsome] at hbody
    | some body =>
        obtain ⟨identifier, hidentifier, -, heq⟩ := identifier_bodyArgument o.parameters body
        simp only [hsome, Option.map_some, Option.toList_some, List.map_cons, List.map_nil,
          List.mem_singleton, heq] at hbody
        rw [hbody] at hx
        exact hbodies identifier hidentifier hx
  rw [hparameters]
  constructor
  · intro hmem
    rcases of_mem_parameterIdentifiers hmem with ⟨p, hp, heq⟩ | ⟨-, p, -, -, heq, -⟩
    · have hsmall : x ∈ smallOuterNames := mem_smallOuterNames hx fun c hc => by
        rw [heq] at hc
        exact (isMarked_spelling p.name).isSmallChar_or_lowLine (isSnakeName_spelling p.name) hc
      exact ⟨hsmall, p, hp, (identifier_eq_iff_of_mem hsmall).mp heq.symm⟩
    · rw [heq] at hx
      exact absurd hx (markedIdentifier_notMem p)
  · rintro ⟨hsmall, p, hp, hsnake⟩
    rw [← (identifier_eq_iff_of_mem hsmall).mpr hsnake]
    exact identifier_mem_parameterIdentifiers hp

/-- The outer names of a method: a call for each place with values to leave out, and the response. -/
theorem outerNames_eq (hnames : ∀ n ∈ names, IsModelName n)
    {o : Operation} (hclosed : ∀ t ∈ o.types, t.Closed names) :
    outerNames o = (namedArguments (operationArguments o)).map calledIn
      ++ o.response.toList.flatMap typeNames := by
  rw [outerNames]
  refine congrArg (_ ++ ·) (List.flatMap_congr fun t ht => ?_)
  have hresponse : responseText o = typeText modelsPrefix t := by
    rw [responseText, Option.mem_toList.mp ht]
    rfl
  rw [hresponse]
  exact (namesIn_typeText hnames t (hclosed t (by simp [Operation.types, ht]))).2

/--
**An argument stands in the way of an outer name if and only if the name of a parameter is spelled
like it.**  What a method looks up outside of itself is the function that leaves out what is not
given, if it has parameters outside of the path, and the names in the annotation of its response,
twelve at most.  An argument can only have one of the eight of them that are in small letters.
-/
theorem disjoint_outerNames_iff {d : CanonicalDocument} {spec : ApiSpec}
    (h : extract d = .ok spec) {o : Operation} (ho : o ∈ spec.operations) :
    (∃ calls, outerNames o = calls ++ o.response.toList.flatMap typeNames
        ∧ (∀ c ∈ calls, c = "drop_none")
        ∧ (calls ≠ [] ↔ ∃ p ∈ o.parameters, p.location ≠ .path))
      ∧ outerNames o ⊆ smallOuterNames ++ capitalOuterNames
      ∧ (∀ x ∈ outerNames o, x ∈ argumentIdentifiers o
        ↔ x ∈ smallOuterNames ∧ ∃ p ∈ o.parameters, snakeCase p.name = x)
      ∧ ((argumentIdentifiers o).Disjoint (outerNames o)
        ↔ ∀ p ∈ o.parameters, snakeCase p.name ∉ outerNames o) := by
  obtain ⟨-, hshape⟩ := keys_of_extract h
  obtain ⟨s, parts, p, -, hmodels, hrun⟩ := extract_ok h
  have htypes := (Scope.interface_closed hmodels hrun).types
  have heq := outerNames_eq hshape fun t ht => htypes t
    (List.mem_append_right _ (List.mem_flatMap.mpr ⟨o, ho, ht⟩))
  have hcalls : ∀ c ∈ (namedArguments (operationArguments o)).map calledIn, c = "drop_none" :=
    List.forall_mem_map.mpr fun _ ha => calledIn_of_mem_namedArguments ha
  have hsubset : outerNames o ⊆ smallOuterNames ++ capitalOuterNames := by
    rw [heq]
    refine List.append_subset.mpr ⟨fun x hx => ?_, fun x hx => ?_⟩
    · rw [hcalls x hx]
      decide
    · obtain ⟨t, -, hx⟩ := List.mem_flatMap.mp hx
      exact typeNames_subset t hx
  refine ⟨⟨_, heq, hcalls, ?_⟩, hsubset, fun x hx => mem_argumentIdentifiers_iff (hsubset hx), ?_⟩
  · rw [← namedArguments_ne_nil_iff, ne_eq, List.map_eq_nil_iff]
  · constructor
    · intro hdisjoint p hp hmem
      refine hdisjoint ((mem_argumentIdentifiers_iff (hsubset hmem)).mpr ⟨?_, p, hp, rfl⟩) hmem
      refine mem_smallOuterNames (hsubset hmem) fun c hc => ?_
      have hne : snakeCase p.name ≠ "" := by
        intro hempty
        rw [hempty] at hc
        cases hc
      exact (isSnakeName_snakeCase hne).isSmallChar_or_lowLine hc
    · intro hall x hx hmem
      obtain ⟨-, p, hp, rfl⟩ := (mem_argumentIdentifiers_iff (hsubset hmem)).mp hx
      exact hall p hp hmem

/-- The arguments and the outer names of each method for a document. -/
def outerNamesOf (d : CanonicalDocument) : Option (List (List String × List String)) :=
  (extract d).toOption.map fun spec =>
    spec.operations.map fun o => (argumentIdentifiers o, outerNames o)

/-- Paints that are looked up by parameters called almost like what the method needs. -/
def paintsDocument : CanonicalDocument where
  info := [("title", .string "Paints")]
  paths := [("/paints", .mapping [("get", .mapping [
    ("operationId", .string "list_paints"),
    ("parameters", .list [
      .mapping [("name", .string "List"), ("in", .string "query")],
      .mapping [("name", .string "class"), ("in", .string "header")]]),
    ("responses", .mapping [("200", .mapping [("content", .mapping [
      ("application/json", .mapping [("schema", .mapping [
        ("type", .string "array"), ("nullable", .bool true),
        ("items", .mapping [("$ref", .string "#/components/schemas/Paint")])])])])])])])])]
  components := [("schemas", .mapping [
    ("Paint", .mapping [("properties", .mapping [
      ("shade", .mapping [("type", .string "string")])])])])]

theorem disjoint_outerNames_paintsDocument :
    outerNamesOf paintsDocument
        = some [(["list", "class_"], ["drop_none", "drop_none", "Optional", "List", "models"])]
      ∧ ∃ spec o, extract paintsDocument = .ok spec ∧ o ∈ spec.operations
        ∧ (argumentIdentifiers o).Disjoint (outerNames o) := by
  obtain ⟨spec, hspec⟩ := except_exists_ok (x := extract paintsDocument) (by decide +kernel)
  have hnames : outerNamesOf paintsDocument
      = some [(["list", "class_"], ["drop_none", "drop_none", "Optional", "List", "models"])] := by
    decide +kernel
  have hparameters : (extract paintsDocument).toOption.map (fun spec => spec.operations.map fun o =>
      (outerNames o, o.parameters.map fun p => snakeCase p.name))
        = some [(["drop_none", "drop_none", "Optional", "List", "models"], ["list", "class"])] := by
    decide +kernel
  refine ⟨hnames, spec, ?_⟩
  rw [hspec] at hparameters
  simp only [Except.toOption, Option.map_some, Option.some.injEq, List.map_eq_singleton_iff,
    Prod.mk.injEq] at hparameters
  obtain ⟨o, hall, houter, hspelled⟩ := hparameters
  have ho : o ∈ spec.operations := by simp [hall]
  refine ⟨o, hspec, ho, (disjoint_outerNames_iff hspec ho).2.2.2.mpr fun p hp => ?_⟩
  have hmem : snakeCase p.name ∈ o.parameters.map fun p => snakeCase p.name := List.mem_map_of_mem hp
  rw [hspelled] at hmem
  rw [houter]
  rcases List.mem_pair.mp hmem with heq | heq
  · rw [heq]
    decide
  · rw [heq]
    decide

/-- Brushes that are looked up by parameters called like what the methods need. -/
def brushesDocument : CanonicalDocument where
  info := [("title", .string "Brushes")]
  paths := [
    ("/brushes", .mapping [("get", .mapping [
      ("operationId", .string "list_brushes"),
      ("parameters", .list [
        .mapping [("name", .string "dropNone"), ("in", .string "query")],
        .mapping [("name", .string "models"), ("in", .string "query")]]),
      ("responses", .mapping [("200", .mapping [("content", .mapping [
        ("application/json", .mapping [("schema", .mapping [
          ("$ref", .string "#/components/schemas/Brush")])])])])])])]),
    ("/brushes/{float}", .mapping [("get", .mapping [
      ("operationId", .string "brush_size"),
      ("parameters", .list [
        .mapping [("name", .string "float"), ("in", .string "path")]]),
      ("responses", .mapping [("200", .mapping [("content", .mapping [
        ("application/json", .mapping [("schema", .mapping [
          ("type", .string "number")])])])])])])])]
  components := [("schemas", .mapping [
    ("Brush", .mapping [("properties", .mapping [
      ("size", .mapping [("type", .string "number")])])])])]

/-- **Arguments stand in the way of outer names** where parameters are called like them. -/
theorem not_disjoint_brushesDocument :
    outerNamesOf brushesDocument = some [
        (["drop_none", "models"], ["drop_none", "models"]), (["float"], ["float"])]
      ∧ ¬ ∀ d spec, extract d = .ok spec → ∀ o ∈ spec.operations,
        (argumentIdentifiers o).Disjoint (outerNames o) := by
  have hnames : outerNamesOf brushesDocument = some [
      (["drop_none", "models"], ["drop_none", "models"]), (["float"], ["float"])] := by
    decide +kernel
  refine ⟨hnames, fun h => ?_⟩
  obtain ⟨spec, hspec⟩ := except_exists_ok (x := extract brushesDocument) (by decide +kernel)
  rw [outerNamesOf, hspec] at hnames
  simp only [Except.toOption, Option.map_some, Option.some.injEq] at hnames
  have hmem : (["float"], ["float"])
      ∈ spec.operations.map fun o => (argumentIdentifiers o, outerNames o) := by simp [hnames]
  obtain ⟨o, ho, heq⟩ := List.mem_map.mp hmem
  obtain ⟨harguments, houter⟩ := Prod.mk.inj heq
  have hdisjoint := h _ _ hspec o ho
  rw [harguments, houter] at hdisjoint
  exact hdisjoint (List.mem_singleton_self _) (List.mem_singleton_self _)

end ApiClientGen.Client
