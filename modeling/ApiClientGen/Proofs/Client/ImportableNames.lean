/-
Names that a client is imported by.

Users import the class of a client from its package, so both have to be names of the generated
language.  The name that is asked for is taken apart for them and nothing is added to it but the
end of the name of the class: what it begins with stays in front, and a reserved word that it
spells out stays one.
-/
import ApiClientGen.Client.Methods
import ApiClientGen.Proofs.Naming.JoinedWords
import ApiClientGen.Proofs.Settings.PackageNames

namespace ApiClientGen.Naming

open ApiClientGen.Text

/-! ### Names of the generated language -/

/-- A text that things can be called by: an identifier that is no reserved word. -/
def IsUsableName (text : String) : Prop := isIdentifier text = true ∧ isReserved text = false

instance (text : String) : Decidable (IsUsableName text) := inferInstanceAs (Decidable (_ ∧ _))

/-- The first letter or digit of a text. -/
def firstWordChar? (text : String) : Option Char := text.toList.find? isWordChar

theorem firstWordChar?_eq_head? (s : List Char) : s.find? isWordChar = (words s).flatten.head? := by
  rw [flatten_words, List.head?_filter]

theorem head?_flatten_map {f : List Char → List Char} {g : Char → Char}
    (hf : ∀ c w, (f (c :: w)).head? = some (g c)) {ws : List (List Char)} (hws : ∀ w ∈ ws, w ≠ []) :
    (ws.flatMap f).head? = ws.flatten.head?.map g := by
  cases ws with
  | nil => rfl
  | cons w ws =>
      cases w with
      | nil => exact absurd rfl (hws [] (by simp))
      | cons c w => simp [List.head?_append, hf c w]

/-- A name in capitals begins with the first letter or digit. -/
theorem head?_pascalCase (name : String) :
    (pascalCase name).toList.head? = (firstWordChar? name).map Char.toUpper := by
  rw [pascalCase, String.toList_ofList, firstWordChar?, firstWordChar?_eq_head?]
  exact head?_flatten_map (fun _ _ => rfl) ne_nil_of_mem_words

/-- A name in small letters begins with the first letter or digit. -/
theorem head?_snakeCase (name : String) :
    (snakeCase name).toList.head? = (firstWordChar? name).map Char.toLower := by
  rw [snakeCase, String.toList_ofList, firstWordChar?, firstWordChar?_eq_head?]
  have hws := ne_nil_of_mem_words (s := name.toList)
  generalize words name.toList = ws at hws
  cases ws with
  | nil => rfl
  | cons w ws =>
      obtain ⟨c, w, rfl⟩ := List.exists_cons_of_ne_nil (hws w (by simp))
      cases ws with
      | nil => simp [List.intercalate_singleton, small]
      | cons v ws => simp [List.intercalate_cons_cons, small]

theorem isAlphanum_of_firstWordChar? {name : String} {c : Char} (h : firstWordChar? name = some c) :
    c.isAlphanum = true :=
  List.find?_some h

/-- The package of a name in capitals begins with its first letter or digit. -/
theorem head?_snakeCase_pascalCase (name : String) :
    (snakeCase (pascalCase name)).toList.head? = (firstWordChar? name).map Char.toLower := by
  rw [head?_snakeCase, firstWordChar?, ← List.head?_filter,
    List.filter_eq_self.mpr fun c => isWordChar_of_mem_pascalCase, head?_pascalCase, Option.map_map]
  cases hfirst : firstWordChar? name with
  | none => rfl
  | some c => exact congrArg some (letterCase (isAlphanum_of_firstWordChar? hfirst)).1

/-- No identifier begins with a digit. -/
theorem isDigit_eq_false_of_isIdentifier {text : String} (h : isIdentifier text = true) :
    ∃ c, text.toList.head? = some c ∧ c.isDigit = false := by
  unfold isIdentifier at h
  cases hlist : text.toList with
  | nil =>
      rw [hlist] at h
      cases h
  | cons c rest =>
      refine ⟨c, rfl, ?_⟩
      rw [hlist, isIdentifierChars, Bool.and_eq_true] at h
      have htable : ∀ n < 58, 48 ≤ n → Table.identifierStart.covers n = false := by decide
      by_contra hdigit
      obtain ⟨hlow, hhigh⟩ := Char.isDigit_iff_toNat.mp (Bool.eq_true_of_not_eq_false hdigit)
      have hlt : c.toNat < 58 := Nat.lt_succ_of_le hhigh
      rw [htable c.toNat hlt hlow] at h
      exact absurd h.1 (by decide)

/-- A name in small letters is an identifier if and only if it does not begin with a digit. -/
theorem isIdentifier_snakeCase_iff (name : String) :
    isIdentifier (snakeCase name) = true
      ↔ ∃ c, (snakeCase name).toList.head? = some c ∧ c.isDigit = false := by
  refine ⟨isDigit_eq_false_of_isIdentifier, fun ⟨c, hc, hdigit⟩ => ?_⟩
  have hne : snakeCase name ≠ "" := by
    intro hempty
    rw [hempty] at hc
    cases hc
  have hmarked : IsMarked (snakeCase name) (snakeCase name) :=
    ⟨[], [], by simp, by simp, by simp, fun hstarts => by simp [startsWithDigit, hc, hdigit] at hstarts⟩
  exact hmarked.isIdentifier_eq (isSnakeName_snakeCase hne)

/-- Letters and digits go on with an identifier, and letters begin one. -/
theorem covers_of_isAlphanum {c : Char} (h : c.isAlphanum = true) :
    Table.identifierContinue.covers c.toNat = true
      ∧ (c.isDigit = false → Table.identifierStart.covers c.toNat = true) := by
  have hword : Number.isWordChar c = true := by simp [Number.isWordChar, h]
  exact Number.of_ascii (P := fun c => c.isAlphanum = true →
      Table.identifierContinue.covers c.toNat = true
        ∧ (c.isDigit = false → Table.identifierStart.covers c.toNat = true))
    (by decide) (Nat.lt_succ_of_lt (Number.toNat_lt_of_isWordChar hword).2) h

/-- Letters and digits are an identifier if they begin with a letter. -/
theorem isIdentifier_of_isAlphanum {text : String} {c : Char} (hall : ∀ d ∈ text.toList, d.isAlphanum = true)
    (hc : text.toList.head? = some c) (hdigit : c.isDigit = false) : isIdentifier text = true := by
  obtain ⟨rest, hlist⟩ := List.head?_eq_some_iff.mp hc
  rw [hlist] at hall
  obtain ⟨hfirst, hrest⟩ := List.forall_mem_cons.mp hall
  rw [isIdentifier, hlist, isIdentifierChars, Bool.and_eq_true, List.all_eq_true]
  exact ⟨(covers_of_isAlphanum hfirst).2 hdigit, fun d hd => (covers_of_isAlphanum (hrest d hd)).1⟩

/-! ### Reserved words -/

/-- A package is called by a reserved word if and only if the name spells one out. -/
theorem isReserved_snakeCase_pascalCase_iff (name : String) :
    isReserved (snakeCase (pascalCase name)) = true ↔ ∃ k ∈ reservedWords, SpellsOut name k.toList := by
  have hwords : ∀ k ∈ reservedWords, (∀ c ∈ k.toList, c.isAlpha = true) ∧ k ≠ "" := by
    have hall : reservedWords.all (fun k => k.toList.all Char.isAlpha && k != "") = true := by decide
    simpa using hall
  have hmem : isReserved (snakeCase (pascalCase name)) = true
      ↔ snakeCase (pascalCase name) ∈ reservedWords := by
    simp [isReserved]
  rw [hmem]
  constructor
  · intro hk
    obtain ⟨hletters, hne⟩ := hwords _ hk
    exact ⟨_, hk, (snakeCase_pascalCase_eq_iff hletters hne).mp rfl⟩
  · rintro ⟨k, hk, hspells⟩
    obtain ⟨hletters, hne⟩ := hwords k hk
    rw [(snakeCase_pascalCase_eq_iff hletters hne).mpr hspells]
    exact hk

/-- No reserved word has the capital letter that all names of client classes have. -/
theorem isReserved_append_client (name : String) : isReserved (name ++ "Client") = false := by
  have hwords : ∀ k ∈ reservedWords, 'C' ∉ k.toList := by
    have hall : reservedWords.all (fun k => !k.toList.contains 'C') = true := by decide
    simpa using hall
  by_contra hreserved
  have hmem : name ++ "Client" ∈ reservedWords := by
    simpa [isReserved] using hreserved
  exact hwords _ hmem (by simp)

end ApiClientGen.Naming

namespace ApiClientGen.Client

open ApiClientGen.Document ApiClientGen.Files ApiClientGen.Naming ApiClientGen.Settings
open ApiClientGen.Text

/-! ### The names of a client -/

/-- The class of a client is called by a name unless the name that was asked for begins with a digit. -/
theorem isName_clientName_iff {g : Generation} {name : String} (hname : g.name = pascalCase name) :
    IsUsableName (clientName g) ↔ ∀ c ∈ firstWordChar? name, c.isDigit = false := by
  have hlist : (clientName g).toList = (pascalCase name).toList ++ "Client".toList := by
    rw [clientName, hname, String.toList_append]
  have hhead : (clientName g).toList.head?
      = some (((firstWordChar? name).map Char.toUpper).getD 'C') := by
    rw [hlist, List.head?_append, head?_pascalCase]
    cases firstWordChar? name <;> rfl
  have hdigit : (((firstWordChar? name).map Char.toUpper).getD 'C').isDigit = false
      ↔ ∀ c ∈ firstWordChar? name, c.isDigit = false := by
    cases hfirst : firstWordChar? name with
    | none => exact ⟨fun _ => nofun, fun _ => by decide⟩
    | some c =>
        rw [Option.map_some, Option.getD_some, (letterCase (isAlphanum_of_firstWordChar? hfirst)).2.1]
        simp
  rw [← hdigit]
  constructor
  · rintro ⟨hidentifier, -⟩
    obtain ⟨c, hc, hfree⟩ := isDigit_eq_false_of_isIdentifier hidentifier
    rw [hhead] at hc
    rw [Option.some.inj hc]
    exact hfree
  · intro hfree
    refine ⟨isIdentifier_of_isAlphanum (fun d hd => ?_) hhead hfree, ?_⟩
    · rw [hlist] at hd
      rcases List.mem_append.mp hd with hd | hd
      · exact isWordChar_of_mem_pascalCase hd
      · exact List.all_eq_true.mp (by decide : "Client".toList.all Char.isAlphanum = true) d hd
    · exact isReserved_append_client g.name

/--
**What a client is imported by**: its package is called by a name of the language if and only if
the name that was asked for has a letter or a digit, the first of them is a letter, and they spell
no reserved word out, as one word or letter by letter; its class if and only if the first of them,
if there is one, is a letter.
-/
theorem isImportable_iff {directory : Path} {inputs : Inputs} {g : Generation} {name : String}
    (hname : inputs.name = .string name) (hg : inputs.generation directory = .ok g) :
    (IsUsableName g.packageName
        ↔ (∃ c, firstWordChar? name = some c ∧ c.isDigit = false)
          ∧ ∀ k ∈ reservedWords, ¬ SpellsOut name k.toList)
      ∧ (IsUsableName (clientName g) ↔ ∀ c ∈ firstWordChar? name, c.isDigit = false) := by
  obtain ⟨asked, hasked, hpascal, -⟩ := generation_ok hg
  obtain rfl : asked = name := Scalar.string.inj (Value.scalar.inj (hasked.symm.trans hname))
  refine ⟨?_, isName_clientName_iff hpascal⟩
  have hhead : (∃ c, (snakeCase (pascalCase asked)).toList.head? = some c ∧ c.isDigit = false)
      ↔ ∃ c, firstWordChar? asked = some c ∧ c.isDigit = false := by
    rw [head?_snakeCase_pascalCase]
    cases hfirst : firstWordChar? asked with
    | none => simp
    | some c => simp [(letterCase (isAlphanum_of_firstWordChar? hfirst)).2.2.1]
  have hreserved : isReserved (snakeCase (pascalCase asked)) = false
      ↔ ∀ k ∈ reservedWords, ¬ SpellsOut asked k.toList := by
    rw [← Bool.not_eq_true, isReserved_snakeCase_pascalCase_iff]
    simp
  rw [Generation.packageName, hpascal, IsUsableName, isIdentifier_snakeCase_iff, hhead, hreserved]

/-- A name in which a word of one letter stands behind a word of several. -/
def listedInputs : Inputs := { name := .string "~ list-2-I f", outputDir := .string "out" }

theorem isImportable_listedInputs :
    ∃ g, listedInputs.generation ⟨"/", []⟩ = .ok g ∧ g.packageName = "list2_if"
      ∧ IsUsableName g.packageName ∧ IsUsableName (clientName g) := by
  obtain ⟨g, hg⟩ := except_exists_ok (x := listedInputs.generation ⟨"/", []⟩) (by decide)
  have hpackage : g.packageName = "list2_if" := by
    obtain ⟨name, hname, hpascal, -⟩ := generation_ok hg
    obtain rfl : "~ list-2-I f" = name := Scalar.string.inj (Value.scalar.inj hname)
    rw [Generation.packageName, hpascal]
    decide
  have hfirst : firstWordChar? "~ list-2-I f" = some 'l' := by decide
  have hspells : ∀ k ∈ reservedWords, ¬ SpellsOut "~ list-2-I f" k.toList := by
    have hwords : (words "~ list-2-I f".toList).map small = [['l', 'i', 's', 't'], ['2'], ['i'], ['f']] := by
      decide
    rintro k - (h | h)
    · rw [hwords] at h
      exact absurd (congrArg List.length h) (by simp)
    · rw [hwords] at h
      cases hlist : k.toList with
      | nil => simp [hlist] at h
      | cons c rest => simp [hlist] at h
  obtain ⟨hiff, hclass⟩ := isImportable_iff rfl hg
  refine ⟨g, hg, hpackage, hiff.mpr ⟨⟨'l', hfirst, by decide⟩, hspells⟩, hclass.mpr ?_⟩
  rw [hfirst]
  rintro c ⟨⟩
  decide

/-- **A package can be called by a reserved word**, also by one that is spelled letter by letter. -/
theorem not_isImportable_spelledWord :
    SpellsOut "I-F" "if".toList
      ∧ ¬ ∀ inputs directory g, Inputs.generation directory inputs = .ok g →
        IsUsableName g.packageName ∧ IsUsableName (clientName g) := by
  have hspells : SpellsOut "I-F" "if".toList := by decide
  refine ⟨hspells, fun h => ?_⟩
  obtain ⟨g, hg⟩ := except_exists_ok
    (x := Inputs.generation ⟨"/", []⟩ { name := .string "I-F", outputDir := .string "out" })
    (by decide)
  have hpackage : g.packageName = "if" := by
    obtain ⟨name, hname, hpascal, -⟩ := generation_ok hg
    obtain rfl : "I-F" = name := Scalar.string.inj (Value.scalar.inj hname)
    rw [Generation.packageName, hpascal]
    decide
  have hreserved := (h _ _ _ hg).1.2
  rw [hpackage] at hreserved
  exact absurd hreserved (by decide)

end ApiClientGen.Client
