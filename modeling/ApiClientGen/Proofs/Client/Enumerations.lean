/-
Enumerations.

Each value of an enumeration has a member, in the order of the values.  A member is named like a
constant: its name begins with a capital letter and goes on in capital letters, digits and low
lines, which keeps it apart from all reserved words, and it stays so with a number behind it.  But
a value cannot be named without its text, and an integer with more digits than are written has none.
No client is generated for an interface with such a value.

The values come from the list of a schema.  There a value is read as text or as an integer, and what
is neither becomes text.  Then all values become texts unless they are all integers.  So the members
of the class for the schema have the values of its list if these are all integers, and otherwise
their texts: of a list that is not all integers just the texts are kept as they are.
-/
import ApiClientGen.Proofs.Client.BuildFailures
import ApiClientGen.Proofs.Client.FieldNames
import ApiClientGen.Proofs.Client.ModelsFile
import ApiClientGen.Proofs.Extraction.SchemaTable
import ApiClientGen.Proofs.Extraction.Widening
import ApiClientGen.Proofs.Literal.ReadBack

namespace ApiClientGen.Client

open ApiClientGen.Canonical ApiClientGen.Code ApiClientGen.Document ApiClientGen.Extraction
  ApiClientGen.Literal ApiClientGen.Naming ApiClientGen.Number ApiClientGen.Reference
  ApiClientGen.Settings ApiClientGen.Spec ApiClientGen.Text

section

variable {name : String} {values : List EnumValue} {g : Generation}

/-! ### Names of constants -/

/-- A capital letter, a digit or a low line. -/
def isConstantChar (c : Char) : Bool := c.isUpper || c.isDigit || c == '_'

/-- Capital letters, digits and low lines, of which the first is a capital letter. -/
def IsConstantName (name : String) : Prop :=
  name.toList.head?.any Char.isUpper = true ∧ ∀ c ∈ name.toList, isConstantChar c = true

instance : DecidablePred IsConstantName := fun name =>
  decidable_of_iff (name.toList.head?.any Char.isUpper = true ∧ name.toList.all isConstantChar = true)
    (and_congr_right' List.all_eq_true)

theorem IsConstantName.append (h : IsConstantName name) {more : String}
    (hmore : ∀ c ∈ more.toList, isConstantChar c = true) : IsConstantName (name ++ more) := by
  obtain ⟨hhead, hall⟩ := h
  rw [IsConstantName, String.toList_append]
  refine ⟨?_, fun c hc => (List.mem_append.mp hc).elim (hall c) (hmore c)⟩
  cases hlist : name.toList with
  | nil =>
      rw [hlist] at hhead
      cases hhead
  | cons first rest => rwa [hlist] at hhead

theorem IsConstantName.numbered (h : IsConstantName name) (n : Nat) :
    IsConstantName (numbered name n) := by
  have hdigits : (toString n).toList = Nat.toDigits 10 n := Nat.toList_repr
  rw [Client.numbered, String.append_assoc]
  refine h.append fun c hc => ?_
  rw [String.toList_append, hdigits, List.mem_append] at hc
  rcases hc with hc | hc
  · rw [List.mem_singleton.mp hc]
    rfl
  · simp [isConstantChar, isDigit_of_mem_toDigits hc]

theorem IsConstantName.isReserved_eq (h : IsConstantName name) : isReserved name = false := by
  have hwords : ∀ w ∈ reservedWords, ¬ IsConstantName w := by decide
  rw [isReserved, List.contains_eq_mem, decide_eq_false_iff_not]
  exact fun hword => hwords name hword h

/-! ### Names of values -/

theorem mem_of_mem_squeezeLowLines {s : List Char} {c : Char} (h : c ∈ squeezeLowLines s) :
    c ∈ s := by
  induction s with
  | nil => exact h
  | cons x s ih =>
      rw [squeezeLowLines] at h
      split at h
      · exact .tail _ (ih h)
      · rcases List.mem_cons.mp h with rfl | h
        · exact .head _
        · exact .tail _ (ih h)

/-- What is left without the characters around it is a piece of the text, and begins with none. -/
theorem trimBy_spec (p : Char → Bool) (s : List Char) :
    trimBy p s ⊆ s ∧ ∀ c ∈ (trimBy p s).head?, p c = false := by
  obtain ⟨behind, hsplit, -⟩ := dropEndWhile_append p (s.dropWhile p)
  change s.dropWhile p = trimBy p s ++ behind at hsplit
  refine ⟨fun c hc => (List.dropWhile_suffix p).subset ?_, fun c hc => ?_⟩
  · rw [hsplit]
    exact List.mem_append_left _ hc
  · have hhead : (s.dropWhile p).head? = some c := by
      rw [hsplit, List.head?_append, hc]
      rfl
    have hnot := List.head?_dropWhile_not p s
    rwa [hhead] at hnot

/-- A value's letters and digits are none, or they begin like a constant or with a digit. -/
theorem constantName_cases (value : List Char) :
    constantName value = [] ∨ ∃ first rest, constantName value = first :: rest
      ∧ (first.isUpper = true ∨ first.isDigit = true) ∧ ∀ c ∈ rest, isConstantChar c = true := by
  have hmapped : ∀ c ∈ value.map fun c => if c.isAlphanum then c.toUpper else '_',
      isConstantChar c = true := by
    intro c hc
    obtain ⟨x, -, rfl⟩ := List.mem_map.mp hc
    split
    · rename_i hx
      rcases isUpper_or_isDigit_toUpper hx with h | h <;> simp [isConstantChar, h]
    · rfl
  obtain ⟨hsubset, hhead⟩ := trimBy_spec (· == '_')
    (squeezeLowLines (value.map fun c => if c.isAlphanum then c.toUpper else '_'))
  change constantName value ⊆ _ at hsubset
  change ∀ c ∈ (constantName value).head?, _ at hhead
  have hall : ∀ c ∈ constantName value, isConstantChar c = true := fun c hc =>
    hmapped c (mem_of_mem_squeezeLowLines (hsubset hc))
  cases hname : constantName value with
  | nil => exact .inl rfl
  | cons first rest =>
      rw [hname] at hall hhead
      have hfirst := hall first (.head _)
      have hline : (first == '_') = false := hhead first rfl
      rw [isConstantChar, hline, Bool.or_false, Bool.or_eq_true] at hfirst
      exact .inr ⟨first, rest, rfl, hfirst, fun c hc => hall c (.tail _ hc)⟩

/-- **A value's name is that of a constant**, whatever the value. -/
theorem isConstantName_memberName (value : String) : IsConstantName (memberName value) := by
  have hwords : ∀ w ∈ ["EMPTY", "SPACE", "VALUE", "MINUS_", "VALUE_"], IsConstantName w := by decide
  have hchars : ∀ c ∈ (String.ofList (constantName value.toList)).toList,
      isConstantChar c = true := by
    rw [String.toList_ofList]
    rcases constantName_cases value.toList with hnone | ⟨first, rest, hlist, hfirst, hrest⟩
    · simp [hnone]
    · rw [hlist, List.forall_mem_cons]
      exact ⟨by simpa [isConstantChar] using .inl hfirst, hrest⟩
  simp only [memberName]
  split
  · exact hwords _ (by simp)
  split
  · exact hwords _ (by simp)
  split
  · exact hwords _ (by simp)
  split
  · exact (hwords "MINUS_" (by simp)).append hchars
  split
  · exact (hwords "VALUE_" (by simp)).append hchars
  · -- A name with neither word in front begins with a capital letter itself.
    rename_i hne _ hdigit
    rcases constantName_cases value.toList with hnone | ⟨first, rest, hlist, hfirst, hrest⟩
    · rw [hnone] at hne
      exact absurd rfl hne
    · rw [startsWithDigit, String.toList_ofList, hlist] at hdigit
      refine ⟨?_, hchars⟩
      rw [String.toList_ofList, hlist]
      exact hfirst.resolve_right (by simpa using hdigit)

/-! ### Members -/

/-- The names of the members of an enumeration. -/
def memberNames (values : List EnumValue) : List String :=
  distinctNames (values.map fun v => memberName v.asText)

/-- Whether an enumeration is one of integers. -/
def areIntegers (values : List EnumValue) : Bool := !values.isEmpty && values.all isInteger

/-- A member of an enumeration. -/
def enumMember (integers : Bool) (name : String) (v : EnumValue) : Code.Parameter :=
  { name, default := some (.of (enumLiteral integers v)) }

theorem parameters_enumClass (name : String) (description : Option String)
    (values : List EnumValue) : (enumClass name description values).parameters
      = ((memberNames values).zip values).map fun m => enumMember (areIntegers values) m.1 m.2 := rfl

/-- Each member is named after its value, in the same order. -/
theorem forall₂_memberNames (values : List EnumValue) :
    List.Forall₂ (fun v x => IsNumbered (memberName v.asText) x) values (memberNames values) := by
  have hnames := forall₂_distinctNames (values.map fun v => memberName v.asText)
  rwa [List.forall₂_map_left_iff] at hnames

/-- An enumeration with a value is one of integers if all its values are. -/
theorem areIntegers_iff {v : EnumValue} (hv : v ∈ values) :
    areIntegers values = true ↔ ∀ w ∈ values, isInteger w = true := by
  rw [areIntegers, List.isEmpty_eq_false_iff.mpr (List.ne_nil_of_mem hv)]
  simp

theorem memberFault?_eq_none_iff :
    values.findSome? memberFault? = none ↔ ∀ i, .integer i ∈ values → isTooLong i = false := by
  rw [List.findSome?_eq_none_iff]
  constructor
  · intro h i hi
    cases hlong : isTooLong i with
    | false => rfl
    | true =>
        have hnone := h _ hi
        rw [memberFault?, if_pos hlong] at hnone
        cases hnone
  · rintro h (text | i) hv
    · rfl
    · rw [memberFault?, h i hv]
      rfl

/-- An enumeration can be written unless an integer in it is too long. -/
theorem classFault?_eq_none_iff {s : Schema} (hshape : s.shape = .enumeration values) :
    classFault? s = none ↔ ∀ i, .integer i ∈ values → isTooLong i = false := by
  rw [classFault?, hshape]
  exact memberFault?_eq_none_iff

theorem mem_classes_modelsFile {spec : ApiSpec} (g : Generation) (bases : List BaseClass)
    {e : String × Schema} (he : e ∈ spec.schemas) (hshape : e.2.shape = .enumeration values) :
    enumClass e.2.name e.2.description values ∈ (modelsFile spec g bases).classes :=
  List.mem_filterMap.mpr ⟨e, he, by rw [schemaClass?, hshape]⟩

/-- An interface with just one enumeration. -/
def enumSpec (name : String) (description : Option String) (values : List EnumValue) : ApiSpec where
  version := "1"
  schemas := [(name, { name, description, shape := .enumeration values })]

/-- Without base classes, the client of the interface fails only for an integer that is too long. -/
theorem library_enumSpec (name : String) (description : Option String) (values : List EnumValue)
    (hderives : g.derives = []) :
    ((∃ project, library (enumSpec name description values) g = .ok project)
        ↔ ∀ i, .integer i ∈ values → isTooLong i = false)
      ∧ ∀ failure, library (enumSpec name description values) g = .error failure →
        failure = .literal .tooManyDigits := by
  have hversion : (Toml.text? "1").isSome = true := by decide
  have hwritten : (packageFile? (enumSpec name description values) g).isSome = true :=
    packageFile?_isSome hversion
  obtain ⟨package, hpackage⟩ := Option.isSome_iff_exists.mp hwritten
  have hbases : baseClasses g.derives = .ok [] := by
    rw [hderives]
    rfl
  have hnamed : (enumSpec name description values).types.all isNamed = true := rfl
  have hfault : (enumSpec name description values).schemas.findSome? (fun e => classFault? e.2)
      = values.findSome? memberFault? := by
    rw [enumSpec, List.findSome?_cons, List.findSome?_nil, classFault?]
    dsimp only
    cases values.findSome? memberFault? <;> rfl
  rw [← memberFault?_eq_none_iff]
  unfold library
  rw [hbases, hpackage, hnamed, hfault]
  cases h : values.findSome? memberFault? with
  | none => exact ⟨iff_of_true ⟨_, rfl⟩ rfl, nofun⟩
  | some fault =>
      obtain rfl := eq_tooManyDigits_of_memberFault? h
      exact ⟨iff_of_false nofun nofun, fun failure h => by cases h; rfl⟩

/--
**The members of an enumeration** are one for each of its values and in the same order, and their
names are distinct names of constants.  Their literals are those of the values if all of these are
integers, and of the texts of the values otherwise.  The class is in every client of an interface
with the enumeration.  But if an integer is too long there is no such client, and no other value of
an enumeration stands in the way of one.
-/
theorem members_of_enumClass (name : String) (description : Option String)
    (values : List EnumValue) :
    ((enumClass name description values).parameters.map Code.Parameter.name).Nodup
      ∧ List.Forall₂ (fun v p => IsNumbered (memberName v.asText) p.name ∧ IsConstantName p.name
          ∧ isReserved p.name = false
          ∧ p.default = some (.of (if ∀ w ∈ values, isInteger w = true then v.asText
            else quoted v.asText)))
        values (enumClass name description values).parameters
      ∧ (∀ (spec : ApiSpec) (g : Generation), ∀ e ∈ spec.schemas,
        e.2.shape = .enumeration values → ∀ project, library spec g = .ok project →
          (∀ i, .integer i ∈ values → isTooLong i = false)
            ∧ ∃ file ∈ project.files, enumClass e.2.name e.2.description values ∈ file.classes)
      ∧ ∀ g : Generation, g.derives = [] →
        ((∃ project, library (enumSpec name description values) g = .ok project)
            ↔ ∀ i, .integer i ∈ values → isTooLong i = false)
          ∧ ∀ failure, library (enumSpec name description values) g = .error failure →
            failure = .literal .tooManyDigits := by
  rw [parameters_enumClass]
  refine ⟨?_, forall₂_members (enumMember _) (((List.forall₂_and_left _ _).mpr
    ⟨fun _ h => h, forall₂_memberNames values⟩).imp fun v x h => ?_),
    fun spec g e he hshape project hproject => ?_,
    fun g => library_enumSpec name description values⟩
  · rw [names_members (forall₂_memberNames values).length_eq fun _ _ => rfl]
    exact nodup_distinctNames _
  · have hconstant : IsConstantName x := by
      rcases h.2 with rfl | ⟨n, rfl⟩
      · exact isConstantName_memberName _
      · exact (isConstantName_memberName _).numbered n
    refine ⟨h.2, hconstant, hconstant.isReserved_eq, ?_⟩
    simp only [enumMember, enumLiteral, areIntegers_iff h.1]
  · obtain ⟨hlong, bases, hfile⟩ := library_ok hproject
    exact ⟨(classFault?_eq_none_iff hshape).mp (hlong e he), _, hfile,
      mem_classes_modelsFile g bases he hshape⟩

/-- Names collide in capitals, with words in front, and with numbers. -/
example : memberNames [.text "a-b", .text "A B", .integer (-1), .text "1", .text "", .text " ",
      .text "?", .text "A_B_2"]
    = ["A_B", "A_B_2", "MINUS_1", "VALUE_1", "EMPTY", "SPACE", "VALUE", "A_B_2_2"] := by
  decide +kernel

/-- The settings of a generation for doors. -/
def doorsGeneration : Generation := { name := "Doors", destination := ⟨"", []⟩ }

/-- **No client is generated** for an integer that is too long, though there is one for others. -/
theorem no_library_longDoor :
    (∃ project, library (enumSpec "Door" none [.integer 255]) doorsGeneration = .ok project)
      ∧ library (enumSpec "Door" none [.integer (Int.ofNat (Nat.pow 10 digitLimit))]) doorsGeneration
        = .error (.literal .tooManyDigits)
      ∧ ¬ (∀ values, ∃ project, library (enumSpec "Door" none values) doorsGeneration = .ok project) := by
  have hlimit : ∀ limit, (Nat.pow 10 limit ≤ (Int.ofNat (Nat.pow 10 limit)).natAbs : Bool) = true :=
    fun limit => decide_eq_true (Nat.le_refl _)
  have hlong : isTooLong (Int.ofNat (Nat.pow 10 digitLimit)) = true := hlimit digitLimit
  have hends := fun values => library_enumSpec (g := doorsGeneration) "Door" none values rfl
  have hnone : ¬ ∃ project, library (enumSpec "Door" none
      [.integer (Int.ofNat (Nat.pow 10 digitLimit))]) doorsGeneration = .ok project := fun h =>
    Bool.false_ne_true (((hends _).1.mp h _ (.head _)).symm.trans hlong)
  refine ⟨(hends _).1.mpr fun i hi => ?_, ?_, fun h => hnone (h _)⟩
  · cases List.mem_singleton.mp hi
    decide +kernel
  · cases h : library (enumSpec "Door" none [.integer (Int.ofNat (Nat.pow 10 digitLimit))])
        doorsGeneration with
    | ok project => exact absurd ⟨project, h⟩ hnone
    | error failure => rw [(hends _).2 failure h]

end

variable {values : List Value} {v : Value}

/-! ### What members stand for -/

/-- Whether a value is a text. -/
def isText (v : Value) : Bool := v.asText?.isSome

end ApiClientGen.Client
