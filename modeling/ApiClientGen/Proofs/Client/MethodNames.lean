/-
Names of methods.

Operations have names of their own in small letters.  The name of a method is the name of its
operation, with low lines around it where the name alone is no identifier, is a reserved word or
is an attribute of the client's base class.  A name in small letters never begins or ends with a
low line, so that the operation's name can be read off that of the method, and different
operations keep different methods and different examples.

The client class also has a method for each key that is sent in a header, and the name of such a
setter is made from that of its security scheme alone.  So setters have one name if their schemes
are spelled alike, one of them has the name of an attribute if its scheme is called `auth_token`,
and a method has the name of a setter if its operation is called like it.  All three happen, and
there are no other clashes.
-/
import ApiClientGen.Client.Packaging
import ApiClientGen.Proofs.Extraction.NameSources
import ApiClientGen.Proofs.Naming.Spellings
import ApiClientGen.Proofs.Reference.Pointers

namespace ApiClientGen.Client

open ApiClientGen.Canonical ApiClientGen.Code ApiClientGen.Extraction ApiClientGen.Naming
open ApiClientGen.Settings ApiClientGen.Spec ApiClientGen.Text

/-! ### Methods of operations -/

/-- No attribute of the client's base class ends in a low line. -/
theorem append_lowLine_notMem_clientAttributes (name : String) :
    name ++ "_" ∉ clientAttributes := by
  have hattributes : ∀ a ∈ clientAttributes, a.toList.getLast? ≠ some '_' := by decide
  intro hmem
  exact hattributes _ hmem (by simp)

/-- The name of a method is that of its operation with low lines around it. -/
theorem isMarked_methodName {operation : String} (h : IsSnakeName operation) :
    IsMarked operation (methodName operation) := by
  unfold methodName
  dsimp only
  split
  · exact (isMarked_identifier h).followed
  · exact isMarked_identifier h

/-- The name of a method is neither a reserved word nor an attribute of the base class. -/
theorem methodName_isFree (operation : String) :
    isReserved (methodName operation) = false ∧ methodName operation ∉ clientAttributes := by
  unfold methodName
  dsimp only
  split
  · exact ⟨isReserved_append_lowLine _, append_lowLine_notMem_clientAttributes _⟩
  · rename_i hfree
    exact ⟨isReserved_identifier _, by simpa using hfree⟩

/-- Different names in small letters are names of different methods. -/
theorem methodName_injective {a b : String} (ha : IsSnakeName a) (hb : IsSnakeName b)
    (h : methodName a = methodName b) : a = b := by
  have hmarked := isMarked_methodName hb
  rw [← h] at hmarked
  exact (isMarked_methodName ha).inj ha hb hmarked

@[simp]
theorem exampleFile_path (spec : ApiSpec) (g : Generation) (o : Operation) :
    (exampleFile spec g o).path = "examples/" ++ methodName o.name ++ ".py" := rfl

/--
**Different operations have different methods and examples**, and every method has a name that
the client class can use.
-/
theorem methodNames_of_extract {d : CanonicalDocument} {spec : ApiSpec}
    (h : extract d = .ok spec) :
    (spec.operations.map (·.name)).Nodup
      ∧ (spec.operations.map fun o => methodName o.name).Nodup
      ∧ (∀ o ∈ spec.operations, isIdentifier (methodName o.name) = true
        ∧ (∀ c ∈ (methodName o.name).toList, c.toNat < 128)
        ∧ isReserved (methodName o.name) = false ∧ methodName o.name ∉ clientAttributes)
      ∧ ∀ g, (spec.operations.map fun o => (exampleFile spec g o).path).Nodup := by
  obtain ⟨hnodup, hsnake⟩ := operationNames_of_extract h
  have hmethods : (spec.operations.map fun o => methodName o.name).Nodup := by
    refine (hnodup.of_map _).map_on fun a ha b hb hsame => ?_
    have hname := methodName_injective (hsnake a ha) (hsnake b hb) hsame
    exact List.inj_on_of_nodup_map hnodup ha hb hname
  refine ⟨hnodup, hmethods, fun o ho => ?_, fun g => ?_⟩
  · have hmarked := isMarked_methodName (hsnake o ho)
    exact ⟨hmarked.isIdentifier_eq (hsnake o ho), fun c hc =>
      toNat_lt_of_isSmallChar_or_lowLine (hmarked.isSmallChar_or_lowLine (hsnake o ho) hc),
      methodName_isFree o.name⟩
  · refine (hmethods.of_map _).map_on fun a ha b hb hsame => ?_
    simp only [exampleFile_path, String.append_left_inj, String.append_right_inj] at hsame
    exact List.inj_on_of_nodup_map hmethods ha hb hsame

/-- Operations whose identifiers are the same, or reserved, or no identifiers at all. -/
def doorDocument : CanonicalDocument where
  info := [("title", .string "Doors")]
  paths := [
    ("/doors", .mapping [
      ("get", .mapping [("operationId", .string "Close")]),
      ("put", .mapping [("operationId", .string "close")]),
      ("post", .mapping [("operationId", .string "class")]),
      ("delete", .mapping [("operationId", .string "2 doors")])]),
    ("/close-2", .mapping [("head", .mapping [("operationId", .string "close2")])]),
    ("/{id}", .mapping [("get", .mapping [])])]

theorem methodNames_doorDocument :
    (extract doorDocument).toOption.map (fun spec => spec.operations.map fun o => methodName o.name)
        = some ["close_", "close_2", "class_", "_2_doors", "close2", "get_by_id"]
      ∧ ∃ spec, extract doorDocument = .ok spec
        ∧ (spec.operations.map (·.name)).Nodup
        ∧ (spec.operations.map fun o => methodName o.name).Nodup
        ∧ ∀ o ∈ spec.operations, isIdentifier (methodName o.name) = true
          ∧ methodName o.name ∉ clientAttributes := by
  obtain ⟨spec, hspec⟩ := except_exists_ok (x := extract doorDocument) (by decide +kernel)
  obtain ⟨hnames, hmethods, husable, -⟩ := methodNames_of_extract hspec
  exact ⟨by decide +kernel, spec, hspec, hnames, hmethods, fun o ho =>
    ⟨(husable o ho).1, (husable o ho).2.2.2⟩⟩

/-! ### The setters of a client -/

/-- The security schemes whose key is sent in a header. -/
def keySchemes (spec : ApiSpec) : List SecurityScheme :=
  spec.securitySchemes.filter fun s => (keyHeader? s).isSome

/-- The name of the method that sets the key of a security scheme. -/
def setterName (s : SecurityScheme) : String := "set_" ++ identifier s.name

theorem map_name_keySetters (g : Generation) (schemes : List SecurityScheme) :
    (schemes.filterMap fun s => (keyHeader? s).map (keySetter g s)).map FunctionDef.name
      = (schemes.filter fun s => (keyHeader? s).isSome).map setterName := by
  induction schemes with
  | nil => rfl
  | cons s schemes ih =>
      cases hkey : keyHeader? s with
      | none =>
          rw [List.filterMap_cons_none (by simp [hkey]), List.filter_cons_of_neg (by simp [hkey]), ih]
      | some header =>
          rw [List.filterMap_cons_some (by simp [hkey]; rfl), List.filter_cons_of_pos (by simp [hkey]),
            List.map_cons, List.map_cons, ih]
          rfl

/-- The client class has the setters first, then the methods of the operations. -/
theorem functions_clientFile (spec : ApiSpec) (g : Generation) :
    (clientFile spec g).classes.flatMap (fun c => c.functions.map FunctionDef.name)
      = (keySchemes spec).map setterName ++ spec.operations.map fun o => methodName o.name := by
  rw [keySchemes, ← map_name_keySetters g]
  simp [clientFile, operationMethod]

/-! ### Names of setters -/

/-- Setters have one name if their schemes are spelled alike. -/
theorem setterName_eq_setterName_iff {s t : SecurityScheme} :
    setterName s = setterName t ↔ spelling s.name = spelling t.name := by
  rw [setterName, setterName, String.append_right_inj, identifier_eq_identifier_iff]

theorem nodup_setterNames_iff (schemes : List SecurityScheme) :
    (schemes.map setterName).Nodup ↔ (schemes.map fun s => spelling s.name).Nodup := by
  simp only [List.Nodup, List.pairwise_map, ne_eq, setterName_eq_setterName_iff]

/-- The one attribute of the base class that a setter can have the name of sets a token. -/
theorem setterName_mem_clientAttributes_iff (s : SecurityScheme) :
    setterName s ∈ clientAttributes ↔ spelling s.name = "auth_token" := by
  have htoken : identifier s.name = "auth_token" ↔ spelling s.name = "auth_token" :=
    identifier_eq_iff (isSnakeName_of_snakeCase_eq (by decide +kernel) (by decide))
      (by decide +kernel)
  rw [← htoken]
  constructor
  · intro hmem
    have hattributes : ∀ a ∈ clientAttributes,
        a = "set_" ++ "auth_token" ∨ beginsWith a "set_" = false := by
      decide
    rcases hattributes _ hmem with heq | hother
    · exact (String.append_right_inj "set_").mp heq
    · have hset : beginsWith (setterName s) "set_" = true :=
        beginsWith_iff.mpr ⟨identifier s.name, rfl⟩
      rw [hset] at hother
      cases hother
  · intro heq
    rw [setterName, heq]
    decide

/-- An operation that is called like a setter has a method with its own name, unless it is taken. -/
theorem methodName_eq_self {operation : String} (hsnake : IsSnakeName operation)
    (hset : beginsWith operation "set_" = true) (hfree : operation ∉ clientAttributes) :
    methodName operation = operation := by
  have hwords : ∀ w ∈ takenWords, beginsWith w "set_" = false := by decide
  have hletter : startsWithDigit operation = false := by
    obtain ⟨rest, rfl⟩ := beginsWith_iff.mp hset
    simp [startsWithDigit]
  have htaken : operation ∉ takenWords := fun hmem =>
    Bool.false_ne_true ((hwords operation hmem).symm.trans hset)
  rw [methodName, hsnake.identifier_eq hletter htaken]
  simp [hfree]

/-- **A method has the name of a setter** if its operation has, and the base class has not. -/
theorem methodName_eq_setterName_iff {operation : String} (hsnake : IsSnakeName operation)
    (s : SecurityScheme) :
    methodName operation = setterName s
      ↔ operation = setterName s ∧ setterName s ∉ clientAttributes := by
  constructor
  · intro heq
    refine ⟨?_, heq ▸ (methodName_isFree operation).2⟩
    have hmarked := isMarked_methodName hsnake
    rw [heq] at hmarked
    have hfirst : (setterName s).toList.head? = some 's' := by simp [setterName]
    rcases identifier_last s.name with ⟨last, hlast, hsmall⟩ | ⟨text, htext, htaken⟩
    · have hend : (setterName s).toList.getLast? = some last := by
        rw [setterName, String.toList_append, List.getLast?_append, hlast]
        rfl
      exact hmarked.eq_of_ends hfirst hend (by decide) (by rintro rfl; exact absurd hsmall (by decide))
    · -- The scheme is called by a word that is taken, and a method would not have its low line.
      have htexts : ∀ w ∈ takenWords,
          trimBy (· == '_') ("set_" ++ (w ++ "_")).toList = ("set_" ++ w).toList
            ∧ methodName ("set_" ++ w) ≠ "set_" ++ (w ++ "_") := by
        decide +kernel
      obtain ⟨htrim, hne⟩ := htexts text (mem_takenWords_iff.mpr htaken)
      have hoperation := hmarked.trimBy_eq hsnake
      rw [setterName, htext, htrim, String.toList_inj] at hoperation
      rw [← hoperation, setterName, htext] at heq
      exact absurd heq hne
  · rintro ⟨rfl, hfree⟩
    exact methodName_eq_self hsnake (beginsWith_iff.mpr ⟨_, rfl⟩) hfree

/-! ### Setters apart from each other and from the other methods -/

/-- No two setters have one name, and none has that of another method or of an attribute. -/
def SettersAreApart (spec : ApiSpec) : Prop :=
  ((keySchemes spec).map setterName).Nodup
    ∧ ∀ s ∈ keySchemes spec,
      (∀ o ∈ spec.operations, setterName s ≠ methodName o.name) ∧ setterName s ∉ clientAttributes

instance (spec : ApiSpec) : Decidable (SettersAreApart spec) := inferInstanceAs (Decidable (_ ∧ _))

/--
**Setters are apart if and only if** their schemes have different spellings, none of them is
`auth_token`, and no operation is called like a setter.
-/
theorem settersAreApart_iff {d : CanonicalDocument} {spec : ApiSpec} (h : extract d = .ok spec) :
    (∀ g, (clientFile spec g).classes.flatMap (fun c => c.functions.map FunctionDef.name)
        = (keySchemes spec).map setterName ++ spec.operations.map fun o => methodName o.name)
      ∧ (∀ s ∈ keySchemes spec,
        (∀ t ∈ keySchemes spec, setterName s = setterName t ↔ spelling s.name = spelling t.name)
        ∧ (setterName s ∈ clientAttributes ↔ spelling s.name = "auth_token")
        ∧ ∀ o ∈ spec.operations, methodName o.name = setterName s
          ↔ o.name = setterName s ∧ spelling s.name ≠ "auth_token")
      ∧ (SettersAreApart spec ↔ ((keySchemes spec).map fun s => spelling s.name).Nodup
        ∧ ∀ s ∈ keySchemes spec,
          spelling s.name ≠ "auth_token" ∧ ∀ o ∈ spec.operations, o.name ≠ setterName s) := by
  obtain ⟨-, hsnake⟩ := operationNames_of_extract h
  have hmethod : ∀ s, ∀ o ∈ spec.operations, methodName o.name = setterName s
      ↔ o.name = setterName s ∧ spelling s.name ≠ "auth_token" := fun s o ho => by
    rw [methodName_eq_setterName_iff (hsnake o ho), setterName_mem_clientAttributes_iff]
  refine ⟨functions_clientFile spec, fun s _ => ⟨fun t _ => setterName_eq_setterName_iff,
    setterName_mem_clientAttributes_iff s, hmethod s⟩, ?_⟩
  refine and_congr (nodup_setterNames_iff _) (forall₂_congr fun s hs => ?_)
  rw [setterName_mem_clientAttributes_iff, and_comm]
  refine and_congr_right fun htoken => forall₂_congr fun o ho => ?_
  rw [ne_comm, ne_eq, hmethod s o ho]
  simp [htoken]

/-- Gates that are opened with two keys, called almost like each other and like an operation. -/
def gatesDocument : CanonicalDocument where
  info := [("title", .string "Gates")]
  paths := [("/gates", .mapping [
    ("get", .mapping [("operationId", .string "setGateKeys")]),
    ("put", .mapping [("operationId", .string "set_auth_token")])])]
  components := [("securitySchemes", .mapping [
    ("gateKey", .mapping [("type", .string "apiKey"), ("in", .string "header"),
      ("name", .string "X-Gate")]),
    ("gate-key-2", .mapping [("type", .string "apiKey"), ("in", .string "header"),
      ("name", .string "X-Gate-2")])])]

/-- The names of the methods of the client class for a document. -/
def clientFunctionsOf (d : CanonicalDocument) : Option (List String) :=
  (extract d).toOption.map fun spec =>
    (keySchemes spec).map setterName ++ spec.operations.map fun o => methodName o.name

theorem settersAreApart_gatesDocument :
    clientFunctionsOf gatesDocument
        = some ["set_gate_key", "set_gate_key_2", "set_gate_keys", "set_auth_token_"]
      ∧ ∃ spec, extract gatesDocument = .ok spec ∧ SettersAreApart spec := by
  obtain ⟨spec, hspec⟩ := except_exists_ok (x := extract gatesDocument) (by decide +kernel)
  have hspelled : (extract gatesDocument).toOption.map (fun spec =>
      decide (((keySchemes spec).map fun s => spelling s.name).Nodup
        ∧ ∀ s ∈ keySchemes spec,
          spelling s.name ≠ "auth_token" ∧ ∀ o ∈ spec.operations, o.name ≠ setterName s))
      = some true := by
    decide +kernel
  rw [hspec] at hspelled
  exact ⟨by decide +kernel, spec, hspec,
    (settersAreApart_iff hspec).2.2.mpr (of_decide_eq_true (Option.some.inj hspelled))⟩

/-- Locks with keys of one spelling, with a key called like a token, and an operation like a setter. -/
def locksDocument : CanonicalDocument where
  info := [("title", .string "Locks")]
  paths := [("/locks", .mapping [("put", .mapping [("operationId", .string "set_api_key")])])]
  components := [("securitySchemes", .mapping [
    ("apiKey", .mapping [("type", .string "apiKey"), ("in", .string "header"),
      ("name", .string "X-Key")]),
    ("api_key", .mapping [("type", .string "apiKey"), ("in", .string "header"),
      ("name", .string "X-Other-Key")]),
    ("auth-token", .mapping [("type", .string "apiKey"), ("in", .string "header"),
      ("name", .string "X-Token")])])]

/-- **Setters clash** with each other, with a method and with an attribute of the base class. -/
theorem not_settersAreApart_locksDocument :
    clientFunctionsOf locksDocument
        = some ["set_api_key", "set_api_key", "set_auth_token", "set_api_key"]
      ∧ "set_auth_token" ∈ clientAttributes
      ∧ ¬ ∀ d spec, extract d = .ok spec → SettersAreApart spec := by
  refine ⟨by decide +kernel, by decide, fun h => ?_⟩
  obtain ⟨spec, hspec⟩ := except_exists_ok (x := extract locksDocument) (by decide +kernel)
  have hapart : (extract locksDocument).toOption.map (fun spec => decide (SettersAreApart spec))
      = some false := by
    decide +kernel
  rw [hspec] at hapart
  exact of_decide_eq_false (Option.some.inj hapart) (h _ _ hspec)

end ApiClientGen.Client
