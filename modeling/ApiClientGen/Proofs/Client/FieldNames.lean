/-
Names of fields.

The identifier of a field is made from the name of its property.  It begins with a small letter,
which keeps the field visible, it is no reserved word, no attribute of the base class of the models
and none of the names that annotations use, and all of this stays so behind a number.  Where the
identifier is not the name itself the field carries the name as its alias, so that every field of a
record is known outside by the name of its property.

What a number can undo is the guard for the names that begin with `model_`, which the base class
keeps for itself: such a field comes about if two properties are spelled `model`, and not otherwise.
The method that makes placeholders is not guarded against: its name is that of a field if a property
is spelled `dummy`.
-/
import ApiClientGen.Code.Render
import ApiClientGen.Proofs.Client.DistinctNames
import ApiClientGen.Proofs.Document.Related
import ApiClientGen.Proofs.Literal.CallArguments
import ApiClientGen.Proofs.Naming.Spellings
import ApiClientGen.Proofs.Reference.Pointers

namespace ApiClientGen.Client

open ApiClientGen.Code ApiClientGen.Document ApiClientGen.Literal ApiClientGen.Naming
  ApiClientGen.Settings ApiClientGen.Spec ApiClientGen.Text

variable {name text : String}

/-! ### Identifiers of fields -/

/-- The names that the identifier of a field must not have: they would be followed by a low line. -/
def guardedNames : List String := baseModelAttributes ++ annotationNames

/-- The identifier of a field: what is hidden or kept is marked, and what is guarded is followed. -/
theorem fieldIdentifier_cases (name : String) :
    ∃ visible, ((visible = identifier name ∧ beginsWith (identifier name) "_" = false
          ∧ beginsWith (identifier name) "model_" = false)
        ∨ ((beginsWith (identifier name) "_" = true ∨ beginsWith (identifier name) "model_" = true)
          ∧ visible = "field_" ++ String.ofList ((identifier name).toList.dropWhile (· == '_'))))
      ∧ ((fieldIdentifier name = visible ++ "_" ∧ visible ∈ guardedNames)
        ∨ (fieldIdentifier name = visible ∧ visible ∉ guardedNames)) := by
  unfold fieldIdentifier
  dsimp only
  generalize hvisible : (if (beginsWith (identifier name) "_"
      || beginsWith (identifier name) "model_") = true
    then "field_" ++ String.ofList ((identifier name).toList.dropWhile (· == '_'))
    else identifier name) = visible
  refine ⟨visible, ?_, ?_⟩
  · rw [← hvisible]
    split
    · rename_i hmarked
      exact .inr ⟨by simpa using hmarked, rfl⟩
    · rename_i hplain
      simp only [Bool.or_eq_true, not_or, Bool.not_eq_true] at hplain
      exact .inl ⟨rfl, hplain⟩
  · rw [guardedNames, List.mem_append]
    split
    · rename_i hguarded
      exact .inl ⟨rfl, by simpa using hguarded⟩
    · rename_i hfree
      exact .inr ⟨rfl, by simpa using hfree⟩

/-- A small letter, and behind it small letters, digits and low lines. -/
def IsFieldName (name : String) : Prop :=
  ∃ first rest, name.toList = first :: rest ∧ first.isLower = true
    ∧ ∀ c ∈ rest, isSmallChar c = true ∨ c = '_'

theorem IsFieldName.append (h : IsFieldName name)
    (htext : ∀ c ∈ text.toList, isSmallChar c = true ∨ c = '_') : IsFieldName (name ++ text) := by
  obtain ⟨first, rest, hlist, hfirst, hrest⟩ := h
  refine ⟨first, rest ++ text.toList, by rw [String.toList_append, hlist]; rfl, hfirst, ?_⟩
  exact List.forall_mem_append.mpr ⟨hrest, htext⟩

/-- **Such a name is an identifier** in ASCII letters and does not begin with a low line. -/
theorem IsFieldName.usable (h : IsFieldName name) :
    isIdentifier name = true ∧ (∀ c ∈ name.toList, c.toNat < 128) ∧ beginsWith name "_" = false := by
  obtain ⟨first, rest, hlist, hfirst, hrest⟩ := h
  have hsmall : isSmallChar first = true := by simp [isSmallChar, hfirst]
  have hletter : first.isDigit = false ∧ first ≠ '_' := by
    refine ⟨?_, by rintro rfl; exact absurd hfirst (by decide)⟩
    by_contra hdigit
    simp only [Char.isLower, Char.isDigit, ge_iff_le, UInt32.le_iff_toNat_le, Bool.not_eq_false,
      Bool.and_eq_true, decide_eq_true_eq] at hfirst hdigit
    simp at hfirst hdigit
    omega
  refine ⟨?_, ?_, ?_⟩
  · rw [isIdentifier, hlist, isIdentifierChars, Bool.and_eq_true, List.all_eq_true]
    exact ⟨(covers_identifier (.inl hsmall)).2 hletter.1,
      fun c hc => (covers_identifier (hrest c hc)).1⟩
  · rw [hlist]
    exact List.forall_mem_cons.mpr ⟨toNat_lt_of_isSmallChar_or_lowLine (.inl hsmall),
      fun c hc => toNat_lt_of_isSmallChar_or_lowLine (hrest c hc)⟩
  · rw [beginsWith, hlist]
    simp [List.isPrefixOf, Ne.symm hletter.2]

/-- What begins an identifier and stands in a name in small letters is a small letter. -/
theorem isLower_of_covers {c : Char} (hc : isSmallChar c = true ∨ c = '_') (hline : c ≠ '_')
    (h : Table.identifierStart.covers c.toNat = true) : c.isLower = true := by
  have htable : ∀ n < 128, isSmallChar (Char.ofNat n) = true →
      Table.identifierStart.covers n = true → (Char.ofNat n).isLower = true := by
    decide
  have hlt := toNat_lt_of_isSmallChar_or_lowLine hc
  have hlower := htable c.toNat hlt
  rw [Char.ofNat_toNat] at hlower
  exact hlower (hc.resolve_right hline) h

/-- An identifier that does not begin with a low line begins with a small letter. -/
theorem isFieldName_identifier (h : beginsWith (identifier name) "_" = false) :
    IsFieldName (identifier name) := by
  have hmarked := isMarked_spelling name
  have hsnake := isSnakeName_spelling name
  have hidentifier := hmarked.isIdentifier_eq hsnake
  cases hlist : (identifier name).toList with
  | nil =>
      rw [isIdentifier, hlist] at hidentifier
      cases hidentifier
  | cons first rest =>
      have hchars : ∀ c ∈ first :: rest, isSmallChar c = true ∨ c = '_' := by
        rw [← hlist]
        exact fun c hc => hmarked.isSmallChar_or_lowLine hsnake hc
      obtain ⟨hfirst, hrest⟩ := List.forall_mem_cons.mp hchars
      rw [isIdentifier, hlist, isIdentifierChars, Bool.and_eq_true] at hidentifier
      have hline : first ≠ '_' := by
        rintro rfl
        rw [beginsWith, hlist] at h
        cases h
      exact ⟨first, rest, hlist, isLower_of_covers hfirst hline hidentifier.1, hrest⟩

/-- The identifier of a field begins with a small letter. -/
theorem isFieldName_fieldIdentifier (name : String) : IsFieldName (fieldIdentifier name) := by
  obtain ⟨visible, hvisible, hcases⟩ := fieldIdentifier_cases name
  have hshape : IsFieldName visible := by
    rcases hvisible with ⟨heq, hline, -⟩ | ⟨-, heq⟩
    · rw [heq]
      exact isFieldName_identifier hline
    · have hfield : IsFieldName "field_" :=
        ⟨'f', "ield_".toList, by decide, by decide, by simp [isSmallChar, Char.isLower]⟩
      rw [heq]
      refine hfield.append fun c hc => ?_
      rw [String.toList_ofList] at hc
      exact (isMarked_spelling name).isSmallChar_or_lowLine (isSnakeName_spelling name)
        ((List.dropWhile_suffix _).subset hc)
  rcases hcases with ⟨heq, -⟩ | ⟨heq, -⟩
  · rw [heq]
    exact hshape.append (by simp)
  · rw [heq]
    exact hshape

/-- The identifier of a field is none of the names that are guarded, and no reserved word. -/
theorem fieldIdentifier_isFree (name : String) :
    fieldIdentifier name ∉ guardedNames ∧ isReserved (fieldIdentifier name) = false
      ∧ beginsWith (fieldIdentifier name) "model_" = false := by
  have hguards : ∀ n ∈ guardedNames,
      n.toList.getLast? ≠ some '_' ∧ beginsWith (n ++ "_") "model_" = false := by
    decide +kernel
  have hwords : ∀ w ∈ reservedWords, beginsWith w "field_" = false := by decide
  obtain ⟨visible, hvisible, ⟨heq, hguarded⟩ | ⟨heq, hfree⟩⟩ := fieldIdentifier_cases name
  · rw [heq]
    exact ⟨fun hmem => (hguards _ hmem).1 (by simp), isReserved_append_lowLine visible,
      (hguards _ hguarded).2⟩
  · rw [heq]
    refine ⟨hfree, ?_⟩
    rcases hvisible with ⟨hplain, -, hmodel⟩ | ⟨-, hfield⟩
    · rw [hplain]
      exact ⟨isReserved_identifier name, hmodel⟩
    · have hbegins : beginsWith visible "field_" = true := beginsWith_iff.mpr ⟨_, hfield⟩
      refine ⟨?_, ?_⟩
      · by_contra hreserved
        have hmem : visible ∈ reservedWords := by simpa [isReserved] using hreserved
        rw [hwords visible hmem] at hbegins
        cases hbegins
      · rw [hfield, beginsWith, String.toList_append]
        rfl

/-- An identifier that the field of a class can have. -/
structure IsUsable (name : String) : Prop where
  isIdentifier : isIdentifier name = true
  isAscii : ∀ c ∈ name.toList, c.toNat < 128
  isUnreserved : isReserved name = false
  isVisible : beginsWith name "_" = false

/-- No name with a number is a reserved word or guarded. -/
theorem numbered_isFree (base : String) (n : Nat) :
    isReserved (numbered base n) = false ∧ numbered base n ∉ guardedNames := by
  have hwords : ∀ w ∈ reservedWords ++ guardedNames, ¬ EndsInDigit w := by decide +kernel
  have hfree : numbered base n ∉ reservedWords ++ guardedNames := fun hmem =>
    hwords _ hmem (endsInDigit_numbered base n)
  rw [List.mem_append, not_or] at hfree
  exact ⟨by simpa [isReserved] using hfree.1, hfree.2⟩

theorem IsNumbered.isFieldName {base : String} (h : IsNumbered base name) (hbase : IsFieldName base) :
    IsFieldName name := by
  rcases h with heq | ⟨n, heq⟩
  · rwa [heq]
  · rw [heq, numbered, String.append_assoc]
    refine hbase.append fun c hc => ?_
    have hnumber : (toString n).toList = Nat.toDigits 10 n := Nat.toList_repr
    rw [String.toList_append, hnumber] at hc
    rcases List.mem_append.mp hc with hline | hdigit
    · exact .inr (List.mem_singleton.mp hline)
    · exact .inl (by simp [isSmallChar, isDigit_of_mem_toDigits hdigit])

/-- The identifier of a field stays usable behind a number. -/
theorem IsNumbered.isUsable {property : String} (h : IsNumbered (fieldIdentifier property) name) :
    IsUsable name := by
  obtain ⟨hidentifier, hascii, hvisible⟩ :=
    (h.isFieldName (isFieldName_fieldIdentifier property)).usable
  refine ⟨hidentifier, hascii, ?_, hvisible⟩
  rcases h with heq | ⟨n, heq⟩
  · rw [heq]
    exact (fieldIdentifier_isFree property).2.1
  · rw [heq]
    exact (numbered_isFree _ n).1

/-! ### Names outside -/

/-- The name of a field outside: its alias if its default has one, or else its identifier. -/
def wireName (p : Code.Parameter) : String :=
  (p.default.bind fun d => callText? "Field" "alias" d.render).getD p.name

theorem render_of (text : String) : (Expression.of text).render = text := by
  change String.intercalate ", " [text] = text
  exact String.intercalate_singleton

/-- What stands for a field that is not given is a literal. -/
theorem exists_literal_missing (f : RecordField) :
    ∃ d, deferredLiteral d = .ok (some ((missingLiteral f).toOption.getD "None")) := by
  have hnone : deferredLiteral (.scalar .null) = .ok (some "None") := rfl
  unfold missingLiteral
  cases hliteral : deferredLiteral f.default with
  | error fault => exact ⟨_, hnone⟩
  | ok text? =>
      cases text? with
      | none => exact ⟨_, hnone⟩
      | some text => exact ⟨f.default, hliteral⟩

/-- A literal is no call of a function. -/
theorem callArguments?_literal {d : Reference.Deferred} (h : deferredLiteral d = .ok (some text)) :
    callArguments? "Field" text = none := by
  have hprefix : ¬ ("Field" ++ "(").toList.isPrefixOf text.toList := by
    intro hbegins
    obtain ⟨rest, hlist⟩ := List.isPrefixOf_iff_prefix.mp hbegins
    cases d with
    | scalar x =>
        rcases scalarLiteral_cases h with ⟨t, heq⟩ | hwords
        · rw [heq, quoted, String.toList_ofList, quotedChars] at hlist
          have hfirst := congrArg List.head? hlist
          rcases quoteFor_eq t.toList with hquote | hquote
          · rw [hquote] at hfirst
            cases hfirst
          · rw [hquote] at hfirst
            cases hfirst
        · have hparenthesis := hwords '(' (by rw [← hlist]; simp)
          cases hparenthesis
    | list items =>
        obtain ⟨ls, -, heq⟩ := exists_parts h
        rw [heq] at hlist
        cases hlist
    | mapping fields =>
        obtain ⟨ls, -, heq⟩ := exists_parts h
        rw [heq] at hlist
        cases hlist
    | nothing => cases h
    | broken fault => cases h
  rw [callArguments?, Json.afterWord?, if_neg hprefix]
  rfl

theorem passes_alias (property : String) :
    Passes 0 ("alias" ++ "=" ++ quoted property).toList := by
  rw [String.toList_append]
  exact (Passes.plain (List.all_eq_true.mp (by decide))).append (passes_quoted property)

/-- The alias is read from the default of a required field. -/
theorem callText?_required (property : String) :
    callText? "Field" "alias" ("Field(" ++ "" ++ "alias=" ++ quoted property ++ ")")
      = some property := by
  have hcode : "Field(" ++ "" ++ "alias=" ++ quoted property ++ ")"
      = "Field" ++ "(" ++ String.intercalate ", " ["alias" ++ "=" ++ quoted property] ++ ")" :=
    String.toList_inj.mp (by simp)
  have hall : ∀ a ∈ ["alias" ++ "=" ++ quoted property], Passes 0 a.toList :=
    List.forall_mem_singleton.mpr (passes_alias property)
  obtain ⟨hread, -⟩ := keywordText?_quoted "alias" rfl (by decide) property
  rw [callText?, hcode, callArguments?_call "Field" hall, Option.bind_some, List.map_nil,
    List.findSome?_cons, hread]

/-- The alias is read from the default of another field, behind the literal for what is missing. -/
theorem callText?_optional {d : Reference.Deferred} (h : deferredLiteral d = .ok (some text))
    (property : String) :
    callText? "Field" "alias"
        ("Field(" ++ ("default=" ++ text ++ ", ") ++ "alias=" ++ quoted property ++ ")")
      = some property := by
  have hcode : "Field(" ++ ("default=" ++ text ++ ", ") ++ "alias=" ++ quoted property ++ ")"
      = "Field" ++ "(" ++ String.intercalate ", "
        ["default=" ++ text, "alias" ++ "=" ++ quoted property] ++ ")" :=
    String.toList_inj.mp (by simp [String.intercalate_cons_cons])
  have hdefault : Passes 0 ("default=" ++ text).toList := by
    rw [String.toList_append]
    exact (Passes.plain (List.all_eq_true.mp (by decide))).append (passes_literal d 0 h)
  have hall : ∀ a ∈ ["default=" ++ text, "alias" ++ "=" ++ quoted property], Passes 0 a.toList :=
    List.forall_mem_cons.mpr ⟨hdefault, List.forall_mem_singleton.mpr (passes_alias property)⟩
  have hother : keywordText? "alias" ("default=" ++ text).toList = none := by
    rw [String.toList_append]
    rfl
  obtain ⟨-, hread⟩ := keywordText?_quoted "alias" rfl (by decide) property
  rw [callText?, hcode, callArguments?_call "Field" hall, Option.bind_some, List.findSome?_cons, hother,
    List.map_cons, List.findSome?_cons, hread]

/-- **A field is known outside by the name of its property.** -/
theorem wireName_fieldParameter (identifier : String) (f : RecordField) :
    wireName (fieldParameter identifier f) = f.name := by
  obtain ⟨d, hmissing⟩ := exists_literal_missing f
  have hdefault : wireName (fieldParameter identifier f)
      = ((fieldDefault identifier f).bind (callText? "Field" "alias")).getD identifier := by
    rw [wireName, fieldParameter]
    cases fieldDefault identifier f with
    | none => rfl
    | some text => rw [Option.map_some, Option.bind_some, render_of, Option.bind_some]
  rw [hdefault]
  unfold fieldDefault
  dsimp only
  split
  · rw [Option.bind_some]
    split
    · rw [callText?_required, Option.getD_some]
    · rw [callText?_optional hmissing, Option.getD_some]
  · rename_i hname
    split
    · exact not_not.mp hname
    · rw [Option.bind_some, callText?, callArguments?_literal hmissing]
      exact not_not.mp hname

/-! ### The fields of a record -/

/-- The attributes of the class for a record that are its fields. -/
def fieldParameters (fields : List RecordField) : List Code.Parameter :=
  ((fieldIdentifiers fields).zip fields).map fun f => fieldParameter f.1 f.2

/-- Each field has an identifier that is made from the name of its property, in the same order. -/
theorem forall₂_fieldIdentifiers (fields : List RecordField) :
    List.Forall₂ (fun f x => IsNumbered (fieldIdentifier f.name) x) fields
      (fieldIdentifiers fields) := by
  have hnamed := forall₂_distinctNames (fields.map fun f => fieldIdentifier f.name)
  rwa [List.forall₂_map_left_iff] at hnamed

theorem names_fieldParameters (fields : List RecordField) :
    (fieldParameters fields).map Code.Parameter.name = fieldIdentifiers fields :=
  names_members (forall₂_fieldIdentifiers fields).length_eq fun _ _ => rfl

theorem name_mem_ownParameters {g : Generation} {additional : Bool} {p : Code.Parameter}
    (hp : p ∈ ownParameters g name additional) : p.name ∈ ["model_config", "__tablename__"] := by
  unfold ownParameters at hp
  rcases List.mem_append.mp hp with hp | hp
  · rw [List.mem_singleton.mp hp]
    exact .head _
  · split at hp
    · rw [List.mem_singleton.mp hp]
      exact .tail _ (.head _)
    · cases hp

/--
**The fields of a record** are the attributes of its class behind its own two, one for each property
and in the same order.  Their identifiers are distinct, and each can be used.  Each is known outside
by the name of its property: that is its alias, or its identifier if it has none.
-/
theorem fields_of_recordClass (spec : ApiSpec) (g : Generation) (bases : List String)
    (name : String) (description : Option String) (fields : List RecordField) (additional : Bool) :
    (recordClass spec g bases name description fields additional).parameters
        = ownParameters g name additional ++ fieldParameters fields
      ∧ (∀ p ∈ ownParameters g name additional, p.name = "model_config" ∨ p.name = "__tablename__")
      ∧ ((fieldParameters fields).map Code.Parameter.name).Nodup
      ∧ List.Forall₂ (fun f p => IsUsable p.name ∧ wireName p = f.name) fields
        (fieldParameters fields) := by
  refine ⟨rfl, fun p hp => ?_, ?_, ?_⟩
  · simpa using name_mem_ownParameters hp
  · rw [names_fieldParameters]
    exact nodup_distinctNames _
  · exact forall₂_members fieldParameter ((forall₂_fieldIdentifiers fields).imp fun f x hx =>
      ⟨hx.isUsable, wireName_fieldParameter x f⟩)

/-- Optional texts with the names given. -/
def textFields (names : List String) : List RecordField :=
  names.map fun name => { name, type := { kind := .string } }

/-- Names that begin with a low line or a digit, are kept, are taken, or are spelled alike. -/
example : fieldIdentifiers
    (textFields ["_id", "2x", "model_x", "copy", "str", "class", "", "a b", "aB"])
    = ["id", "field_2x", "field_model_x", "copy_", "str_", "class_", "field", "a_b", "a_b_2"] := by
  decide +kernel

/-! ### Fields apart from the other members -/

/-- What is spelled like a plain name has it as the identifier of its field, and nothing else has. -/
theorem fieldIdentifier_eq_iff (h : text ∈ ["model", "dummy"]) :
    fieldIdentifier name = text ↔ snakeCase name = text := by
  have hall : ∀ t ∈ ["model", "dummy"], (snakeCase t = t ∧ t ≠ "" ∧ t ≠ "field" ∧ identifier t = t)
      ∧ t.toList.getLast? ≠ some '_' ∧ beginsWith t "field_" = false ∧ beginsWith t "_" = false
      ∧ beginsWith t "model_" = false ∧ t ∉ guardedNames := by decide +kernel
  obtain ⟨⟨hsnake, hne, hfield, hself⟩, hlast, hmark, hline, hmodel, hfree⟩ := hall text h
  have hidentifier : identifier name = text ↔ snakeCase name = text := by
    rw [identifier_eq_iff (isSnakeName_of_snakeCase_eq hsnake hne) hself, spelling_eq_iff hfield hne]
  rw [← hidentifier]
  obtain ⟨visible, hvisible, hcases⟩ := fieldIdentifier_cases name
  constructor
  · intro heq
    rcases hcases with ⟨hfollowed, -⟩ | ⟨hplain, -⟩
    · rw [← heq, hfollowed] at hlast
      simp at hlast
    · rcases hvisible with ⟨hsame, -⟩ | ⟨-, hmarked⟩
      · rw [← heq, hplain, hsame]
      · have hbegins : beginsWith text "field_" = true :=
          beginsWith_iff.mpr ⟨_, heq.symm.trans (hplain.trans hmarked)⟩
        rw [hmark] at hbegins
        cases hbegins
  · intro heq
    rw [guardedNames, List.mem_append, not_or] at hfree
    simp [fieldIdentifier, heq, hline, hmodel, hfree]

/-- Behind a number only `model` begins with what the base class keeps for itself. -/
theorem beginsWith_numbered_iff {base : String} (hbase : beginsWith base "model_" = false) (n : Nat) :
    beginsWith (numbered base n) "model_" = true ↔ base = "model" := by
  have hmodel : "model_".toList = "model".toList ++ ['_'] := by decide
  have hlist : (numbered base n).toList = (base.toList ++ ['_']) ++ Nat.toDigits 10 n := by
    rw [toList_numbered]
    simp
  have hnumbered : base.toList ++ ['_'] <+: (numbered base n).toList := ⟨_, hlist.symm⟩
  rw [beginsWith, List.isPrefixOf_iff_prefix]
  constructor
  · intro hprefix
    have hother : ¬ "model_".toList <+: base.toList := by
      rw [← List.isPrefixOf_iff_prefix, ← beginsWith, hbase]
      exact Bool.false_ne_true
    have hinner : ¬ base.toList ++ ['_'] <+: "model".toList := fun h => by
      have hline : '_' ∈ "model".toList := h.subset (by simp)
      exact absurd hline (by decide)
    have hsame : "model".toList ++ ['_'] = base.toList ++ ['_'] := by
      rcases List.prefix_or_prefix_of_prefix hprefix hnumbered with h | h
      · rw [← hmodel]
        exact (List.prefix_concat_iff.mp h).resolve_right hother
      · rw [hmodel] at h
        exact ((List.prefix_concat_iff.mp h).resolve_right hinner).symm
    exact String.toList_inj.mp (List.append_cancel_right hsame).symm
  · rintro rfl
    rw [hmodel]
    exact hnumbered

/-- No identifier of a field is guarded or the name of an attribute that every record has. -/
theorem IsNumbered.isApart {property : String} (h : IsNumbered (fieldIdentifier property) name) :
    name ∉ guardedNames ∧ name ∉ ["model_config", "__tablename__"] := by
  have hattributes : ∀ a ∈ ["model_config", "__tablename__"],
      (beginsWith a "model_" = true ∨ beginsWith a "_" = true) ∧ ¬ EndsInDigit a := by decide
  rcases h with heq | ⟨n, heq⟩
  · have hbase : IsNumbered (fieldIdentifier property) name := .inl heq
    obtain ⟨hguarded, -, hmodel⟩ := fieldIdentifier_isFree property
    rw [← heq] at hguarded hmodel
    refine ⟨hguarded, fun hmem => ?_⟩
    rcases (hattributes name hmem).1 with hbegins | hbegins
    · exact Bool.false_ne_true (hmodel.symm.trans hbegins)
    · exact Bool.false_ne_true (hbase.isUsable.isVisible.symm.trans hbegins)
  · rw [heq]
    exact ⟨(numbered_isFree _ n).2, fun hmem => (hattributes _ hmem).2 (endsInDigit_numbered _ n)⟩

/-- **A number undoes the guard** if and only if two properties are spelled `model`. -/
theorem exists_beginsWith_model_iff (fields : List RecordField) :
    (∃ x ∈ fieldIdentifiers fields, beginsWith x "model_" = true)
      ↔ 1 < fields.countP fun f => snakeCase f.name = "model" := by
  have hguard : ∀ x ∈ fields.map fun f => fieldIdentifier f.name, beginsWith x "model_" = false := by
    intro x hx
    obtain ⟨f, -, rfl⟩ := List.mem_map.mp hx
    exact (fieldIdentifier_isFree f.name).2.2
  have hmodel : ∀ n, beginsWith (numbered "model" n) "model_" = true := fun n =>
    (beginsWith_numbered_iff (by decide) n).mpr rfl
  have hnames : ∀ n, numbered "model" n ∉ fields.map fun f => fieldIdentifier f.name := fun n hmem =>
    Bool.false_ne_true ((hguard _ hmem).symm.trans (hmodel n))
  have hcount : (fields.map fun f => fieldIdentifier f.name).count "model"
      = fields.countP fun f => snakeCase f.name = "model" := by
    rw [List.count, List.countP_map]
    refine List.countP_congr fun f _ => ?_
    simp [fieldIdentifier_eq_iff]
  rw [← hcount, ← exists_numbered_mem_iff (by decide) hnames]
  constructor
  · rintro ⟨x, hx, hbegins⟩
    rcases mem_distinctNames_cases hx with hplain | ⟨before, base, after, n, hsplit, -, heq⟩
    · exact absurd ((hguard x hplain).symm.trans hbegins) Bool.false_ne_true
    · have hbase : base ∈ fields.map fun f => fieldIdentifier f.name := by simp [hsplit]
      rw [heq, beginsWith_numbered_iff (hguard base hbase)] at hbegins
      rw [hbegins] at heq
      exact ⟨n, heq ▸ hx⟩
  · rintro ⟨n, hmem⟩
    exact ⟨_, hmem, hmodel n⟩

/-- A field is called like the method that makes placeholders if a property is spelled like it. -/
theorem dummy_mem_fieldIdentifiers_iff (fields : List RecordField) :
    "dummy" ∈ fieldIdentifiers fields ↔ ∃ f ∈ fields, snakeCase f.name = "dummy" := by
  rw [fieldIdentifiers, mem_distinctNames_iff (by decide), List.mem_map]
  simp [fieldIdentifier_eq_iff]

/--
**What fields collide with.**  No field of a record is called like an attribute of the base class,
like a name that annotations use, or like one of the class's own attributes.  A field begins with
what the base class keeps for itself if and only if two properties are spelled `model`, and it has
the name of the method that makes placeholders if and only if there is this method and a property is
spelled like it.
-/
theorem collisions_of_recordClass (spec : ApiSpec) (g : Generation) (bases : List String)
    (name : String) (description : Option String) (fields : List RecordField) (additional : Bool) :
    (∀ p ∈ fieldParameters fields, p.name ∉ baseModelAttributes ∧ p.name ∉ annotationNames
        ∧ p.name ∉ (ownParameters g name additional).map Code.Parameter.name)
      ∧ ((∃ p ∈ fieldParameters fields, beginsWith p.name "model_" = true)
        ↔ 1 < fields.countP fun f => snakeCase f.name = "model")
      ∧ ((∃ p ∈ fieldParameters fields,
          p.name ∈ (recordClass spec g bases name description fields additional).functions.map
            FunctionDef.name)
        ↔ g.has .fake = true ∧ ∃ f ∈ fields, snakeCase f.name = "dummy") := by
  have hnames : ∀ P : String → Prop,
      (∃ p ∈ fieldParameters fields, P p.name) ↔ ∃ x ∈ fieldIdentifiers fields, P x := fun P => by
    rw [← names_fieldParameters]
    simp
  refine ⟨fun p hp => ?_, ?_, ?_⟩
  · have hidentifier : p.name ∈ fieldIdentifiers fields := by
      rw [← names_fieldParameters]
      exact List.mem_map_of_mem hp
    obtain ⟨f, -, hnumbered⟩ := exists_of_forall₂_right (forall₂_fieldIdentifiers fields) hidentifier
    obtain ⟨hguarded, hown⟩ := hnumbered.isApart
    rw [guardedNames, List.mem_append, not_or] at hguarded
    refine ⟨hguarded.1, hguarded.2, fun hmem => ?_⟩
    obtain ⟨q, hq, heq⟩ := List.mem_map.mp hmem
    rw [← heq] at hown
    exact hown (name_mem_ownParameters hq)
  · exact (hnames fun x => beginsWith x "model_" = true).trans (exists_beginsWith_model_iff fields)
  · rw [hnames, ← dummy_mem_fieldIdentifiers_iff, recordClass]
    dsimp only
    split
    · rename_i hfake
      simp [hfake, dummyMethod]
    · rename_i hfake
      simp [hfake]

/-- The settings of a generation with placeholders. -/
def carsGeneration : Generation := { name := "Cars", destination := ⟨"", []⟩, flags := [.fake] }

/-- **Fields collide** with what the base class keeps for itself and with the method of the class. -/
theorem collisions_carsGeneration :
    fieldIdentifiers (textFields ["model", "Model"]) = ["model", "model_2"]
      ∧ fieldIdentifiers (textFields ["dummy"]) = ["dummy"]
      ∧ ¬ (∀ fields : List RecordField, (fields.map RecordField.name).Nodup →
        ∀ p ∈ fieldParameters fields, beginsWith p.name "model_" = false)
      ∧ ¬ (∀ (spec : ApiSpec) (g : Generation) (name : String) (fields : List RecordField),
        (fields.map RecordField.name).Nodup → ∀ p ∈ fieldParameters fields,
          p.name ∉ (recordClass spec g [] name none fields false).functions.map FunctionDef.name) := by
  refine ⟨by decide +kernel, by decide +kernel, fun h => ?_, fun h => ?_⟩
  · have hguarded : (fieldParameters (textFields ["model", "Model"])).all
        (fun p => beginsWith p.name "model_" = false) = false := by decide +kernel
    have hall := h (textFields ["model", "Model"]) (by decide)
    rw [List.all_eq_false] at hguarded
    obtain ⟨p, hp, hbegins⟩ := hguarded
    exact hbegins (by simpa using hall p hp)
  · have hdummy : (fieldParameters (textFields ["dummy"])).any
        (fun p => p.name == "dummy") = true := by decide +kernel
    obtain ⟨p, hp, hname⟩ := List.any_eq_true.mp hdummy
    have hfree := h {} carsGeneration "Car" (textFields ["dummy"]) (by decide) p hp
    rw [beq_iff_eq.mp hname] at hfree
    exact hfree (.head _)

end ApiClientGen.Client
