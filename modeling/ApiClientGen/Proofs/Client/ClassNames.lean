/-
Names of classes.

The file with the models occupies names of its own: the reserved words, the names that its
annotations use, and those of base classes.  A class gets its name with no regard to them.  It
begins with a capital letter, so that most reserved words are out of reach, and so is whatever
the file writes in small letters.  What is left are twelve names and those of base classes; and
a class has one of these only if the document asks for it, as the name of a schema or as a hint
whose spelling in capitals it is.
-/
import ApiClientGen.Client.Library
import ApiClientGen.Proofs.Extraction.NameSources

namespace ApiClientGen.Client

open ApiClientGen.Canonical ApiClientGen.Document ApiClientGen.Extraction ApiClientGen.Naming
open ApiClientGen.Spec ApiClientGen.Text

/-- The names that the file with the models occupies, with the base classes that it is given. -/
def occupiedNames (bases : List BaseClass) : List String :=
  reservedWords ++ annotationNames ++ bases.map (·.name)

/-- The names that the file occupies in any case and that begin with a capital letter. -/
def capitalNames : List String := [
  "False", "None", "True", "Any", "ClassVar", "Dict", "List", "Optional", "Enum", "BaseModel",
  "ConfigDict", "Field"]

/-- Of the names that the file occupies in any case, those in capitals are shaped like a model's. -/
theorem mem_capitalNames {name : String} (hshape : IsModelName name)
    (h : name ∈ reservedWords ++ annotationNames) : name ∈ capitalNames := by
  have hnames : ∀ n ∈ reservedWords ++ annotationNames,
      (n.toList.head?.map Char.isUpper) = some true → n ∈ capitalNames := by decide +kernel
  obtain ⟨c, rest, hlist, hupper, -⟩ := hshape
  exact hnames name h (by simp [hlist, hupper])

/-- A name with a number behind it ends in a digit. -/
theorem exists_digit_of_numbered (base : String) (n : Nat) :
    ∃ c, (base ++ toString n).toList.getLast? = some c ∧ c.isDigit = true := by
  have hdigits : (toString n).toList = Nat.toDigits 10 n := Nat.toList_repr
  have hne : Nat.toDigits 10 n ≠ [] := Nat.toDigits_ne_nil
  have hlast := List.getLast_mem hne
  refine ⟨_, ?_, Nat.isDigit_of_mem_toDigits (by decide) (by decide) hlast⟩
  rw [String.toList_append, hdigits, List.getLast?_append, List.getLast?_eq_some_getLast hne]
  rfl

/-- No capital name is a name with a number behind it. -/
theorem numbered_notMem_capitalNames (base : String) (n : Nat) :
    base ++ toString n ∉ capitalNames := by
  have hnames : ∀ name ∈ capitalNames, (name.toList.getLast?.map Char.isDigit) = some false := by
    decide +kernel
  intro hmem
  obtain ⟨c, hlast, hdigit⟩ := exists_digit_of_numbered base n
  have hnone := hnames _ hmem
  rw [hlast, Option.map_some, hdigit] at hnone
  cases hnone

/-- A document asks for a name: as that of a schema, or as a hint of what is made from it. -/
def AsksFor (parts : Scope.Parts) (spec : ApiSpec) (wanted : String) : Prop :=
  wanted ∈ Fields.keys parts.schemas ∨ Hint spec wanted

/--
**A class has an occupied name only if the document asks for it.**  It is one of the capital names
or that of a base class, and it is spelled like a name that is asked for, maybe with a number
behind it if it is that of a base class.
-/
theorem occupiedNames_of_extract {d : CanonicalDocument} {spec : ApiSpec}
    (h : extract d = .ok spec) (bases : List BaseClass) :
    ∃ s parts, prepare {} d = .ok (s, parts) ∧
      ∀ name ∈ Fields.keys spec.schemas, name ∈ occupiedNames bases →
        (name ∈ capitalNames
            ∧ ∃ wanted, AsksFor parts spec wanted ∧ name = modelNameOf wanted)
          ∨ (name ∈ bases.map (·.name)
            ∧ ∃ wanted, AsksFor parts spec wanted ∧ IsMadeFrom name wanted) := by
  obtain ⟨s, parts, hprepare, hsource⟩ := schemaNames_of_extract h
  refine ⟨s, parts, hprepare, fun name hname hoccupied => ?_⟩
  obtain ⟨wanted, hwanted, hmade⟩ : ∃ wanted, AsksFor parts spec wanted ∧ IsMadeFrom name wanted := by
    rcases hsource name hname with ⟨key, hkey, hmade⟩ | ⟨hint, hhint, hmade⟩
    · exact ⟨key, Or.inl hkey, hmade⟩
    · exact ⟨hint, Or.inr hhint, hmade⟩
  rcases List.mem_append.mp hoccupied with hfixed | hbase
  · have hcapital := mem_capitalNames ((keys_of_extract h).2 name hname) hfixed
    refine Or.inl ⟨hcapital, wanted, hwanted, ?_⟩
    rcases hmade with heq | ⟨n, rfl⟩
    · exact heq
    · exact absurd hcapital (numbered_notMem_capitalNames _ n)
  · exact Or.inr ⟨hbase, wanted, hwanted, hmade⟩

/-- A record with a part that is called a model, and one that is named after a base class. -/
def baseDocument : CanonicalDocument where
  info := [("title", .string "Bases")]
  components := [("schemas", .mapping [
    ("base", .mapping [("properties", .mapping [
      ("model", .mapping [("properties", .mapping [("name", .mapping [("type", .string "string")])])]),
      ("size", .mapping [("type", .string "integer")])])]),
    ("stamped", .mapping [("properties", .mapping [
      ("at", .mapping [("type", .string "string")])])])])]

theorem occupiedNames_baseDocument :
    (extract baseDocument).toOption.map (fun spec => Fields.keys spec.schemas)
        = some ["BaseModel", "Base", "Stamped"]
      ∧ ∃ spec s parts, extract baseDocument = .ok spec
        ∧ prepare {} baseDocument = .ok (s, parts)
        ∧ ∃ wanted, AsksFor parts spec wanted ∧ "BaseModel" = modelNameOf wanted := by
  have hkeys : (extract baseDocument).toOption.map (fun spec => Fields.keys spec.schemas)
      = some ["BaseModel", "Base", "Stamped"] := by decide +kernel
  obtain ⟨spec, hspec⟩ := except_exists_ok (x := extract baseDocument) (by decide +kernel)
  have hnames : Fields.keys spec.schemas = ["BaseModel", "Base", "Stamped"] := by
    rw [hspec] at hkeys
    simpa [Except.toOption] using hkeys
  obtain ⟨s, parts, hprepare, hoccupied⟩ := occupiedNames_of_extract hspec [⟨"Stamped", none⟩]
  refine ⟨hkeys, spec, s, parts, hspec, hprepare, ?_⟩
  rcases hoccupied "BaseModel" (by simp [hnames]) (by decide +kernel)
    with ⟨-, hwanted⟩ | ⟨hbase, -⟩
  · exact hwanted
  · exact absurd hbase (by decide)

/-- Two schemas that are called like a reserved word and like the annotation for arrays. -/
def noneDocument : CanonicalDocument where
  info := [("title", .string "Names")]
  components := [("schemas", .mapping [
    ("none", .mapping [("enum", .list [.string "nothing"])]),
    ("list", .mapping [("properties", .mapping [
      ("names", .mapping [("type", .string "array"),
        ("items", .mapping [("type", .string "string")])])])])])]

/-- **A class is called like a reserved word** where a schema is. -/
theorem reservedName_noneDocument :
    (extract noneDocument).toOption.map (fun spec => Fields.keys spec.schemas)
        = some ["None", "List"]
      ∧ ¬ ∀ d spec derives bases, extract d = .ok spec → baseClasses derives = .ok bases →
        ∀ name ∈ Fields.keys spec.schemas, name ∉ occupiedNames bases := by
  have hkeys : (extract noneDocument).toOption.map (fun spec => Fields.keys spec.schemas)
      = some ["None", "List"] := by decide +kernel
  refine ⟨hkeys, fun h => ?_⟩
  obtain ⟨spec, hspec⟩ := except_exists_ok (x := extract noneDocument) (by decide +kernel)
  rw [hspec] at hkeys
  have hnames : Fields.keys spec.schemas = ["None", "List"] := by
    simpa [Except.toOption] using hkeys
  exact h noneDocument spec [] [] hspec rfl "None" (by simp [hnames]) (by decide +kernel)

end ApiClientGen.Client
