/-
The spelling that an identifier is made from.

An identifier is made from the name in small letters, and from a word of its own where nothing is
left of the name.  Low lines are all that comes to this spelling, so that it can be read off the
identifier: two names have one identifier if and only if they have one spelling.
-/
import ApiClientGen.Proofs.Naming.SnakeNames

namespace ApiClientGen.Naming

open ApiClientGen.Text

variable {a b name text : String}

/-- The name in small letters, or `field` if nothing is left of it. -/
def spelling (name : String) : String := if snakeCase name = "" then "field" else snakeCase name

theorem isSnakeName_of_snakeCase_eq (h : snakeCase text = text) (hne : text ≠ "") :
    IsSnakeName text := by
  have hsnake : IsSnakeName (snakeCase text) := isSnakeName_snakeCase (by rwa [h])
  rwa [h] at hsnake

theorem isSnakeName_spelling (name : String) : IsSnakeName (spelling name) := by
  unfold spelling
  split
  · exact isSnakeName_of_snakeCase_eq (by decide +kernel) (by decide)
  · rename_i hne
    exact isSnakeName_snakeCase hne

theorem IsSnakeName.ne_empty (h : IsSnakeName name) : name ≠ "" := by
  obtain ⟨first, -, hfirst, -⟩ := h.ends
  rintro rfl
  cases hfirst

/-- A name in small letters is its own spelling. -/
theorem IsSnakeName.spelling_eq (h : IsSnakeName name) : spelling name = name := by
  rw [spelling, h.snakeCase_eq, if_neg h.ne_empty]

/-- A spelling that is not the word for an empty name is the name in small letters. -/
theorem spelling_eq_iff (hfield : text ≠ "field") (hne : text ≠ "") :
    spelling name = text ↔ snakeCase name = text := by
  unfold spelling
  split
  · rename_i hempty
    rw [hempty]
    exact iff_of_false hfield.symm hne.symm
  · exact Iff.rfl

/-- An identifier depends on nothing but the spelling. -/
theorem identifier_spelling (name : String) : identifier (spelling name) = identifier name := by
  have hspelling := (isSnakeName_spelling name).spelling_eq
  unfold spelling at hspelling ⊢
  unfold identifier
  dsimp only
  rw [hspelling]

/-- The words that an identifier is not: they get a low line behind them. -/
def takenWords : List String := "self" :: "client" :: reservedWords

theorem mem_takenWords_iff :
    text ∈ takenWords ↔ isReserved text = true ∨ text = "self" ∨ text = "client" := by
  rw [takenWords, List.mem_cons, List.mem_cons, isReserved, List.contains_iff_mem, ← or_assoc, or_comm]

/-- A name in small letters is its own identifier if it begins with a letter and is not taken. -/
theorem IsSnakeName.identifier_eq (h : IsSnakeName name) (hletter : startsWithDigit name = false)
    (hfree : name ∉ takenWords) : identifier name = name := by
  obtain ⟨named, lettered, -, hnamed, hlettered, hcases⟩ := identifier_cases name
  have hne : snakeCase name ≠ "" := by
    rw [h.snakeCase_eq]
    exact h.ne_empty
  rw [hnamed hne, h.snakeCase_eq, hletter, if_neg Bool.false_ne_true] at hlettered
  rw [hlettered, ← mem_takenWords_iff] at hcases
  rcases hcases with ⟨-, htaken⟩ | ⟨heq, -⟩
  · exact absurd htaken hfree
  · exact heq

/-- **The spelling can be read off** the identifier. -/
theorem isMarked_spelling (name : String) : IsMarked (spelling name) (identifier name) := by
  rw [← identifier_spelling]
  exact isMarked_identifier (isSnakeName_spelling name)

/-- A name with low lines around it is itself if it neither begins nor ends with one. -/
theorem IsMarked.eq_of_ends {first last : Char} (h : IsMarked name text)
    (hfirst : text.toList.head? = some first) (hlast : text.toList.getLast? = some last)
    (hfirstLine : first ≠ '_') (hlastLine : last ≠ '_') : name = text := by
  obtain ⟨before, after, hlist, hbefore, hafter, -⟩ := h
  have hbeforeNil : before = [] := by
    cases before with
    | nil => rfl
    | cons c before =>
        rw [hlist, List.cons_append, List.cons_append, List.head?_cons, hbefore c (by simp)] at hfirst
        exact absurd (Option.some.inj hfirst).symm hfirstLine
  have hafterNil : after = [] := by
    rcases List.eq_nil_or_concat after with hnil | ⟨after, c, rfl⟩
    · exact hnil
    · rw [hlist, List.concat_eq_append, ← List.append_assoc, List.getLast?_concat,
        hafter c (by simp)] at hlast
      exact absurd (Option.some.inj hlast).symm hlastLine
  rw [hbeforeNil, hafterNil, List.nil_append, List.append_nil] at hlist
  exact String.toList_inj.mp hlist.symm

/-- Two names have one identifier if and only if they have one spelling. -/
theorem identifier_eq_identifier_iff : identifier a = identifier b ↔ spelling a = spelling b := by
  constructor
  · intro h
    have hmarked := isMarked_spelling b
    rw [← h] at hmarked
    exact (isMarked_spelling a).inj (isSnakeName_spelling a) (isSnakeName_spelling b) hmarked
  · intro h
    rw [← identifier_spelling a, h, identifier_spelling]

/-- An identifier has the spelling that it was made from. -/
theorem spelling_identifier (name : String) : spelling (identifier name) = spelling name := by
  have hspelling := isSnakeName_spelling name
  rw [spelling, (isMarked_spelling name).snakeCase_eq hspelling, if_neg hspelling.ne_empty]

/-- **An identifier is its own identifier.** -/
theorem identifier_identifier (name : String) : identifier (identifier name) = identifier name :=
  identifier_eq_identifier_iff.mpr (spelling_identifier name)

/-- A name in small letters that is its own identifier is the identifier of what is spelled so. -/
theorem identifier_eq_iff (htext : IsSnakeName text) (hself : identifier text = text) :
    identifier name = text ↔ spelling name = text := by
  have hiff := identifier_eq_identifier_iff (a := name) (b := text)
  rwa [hself, htext.spelling_eq] at hiff

/-! ### Names that code can use -/

/-- No identifier is one of the words that get a low line behind them. -/
theorem identifier_notMem_takenWords (name : String) : identifier name ∉ takenWords := by
  have hlast : ∀ w ∈ takenWords, w.toList.getLast? ≠ some '_' := by decide
  intro htaken
  obtain ⟨named, lettered, -, -, -, ⟨heq, -⟩ | ⟨heq, hfree, hself, hclient⟩⟩ := identifier_cases name
  · refine hlast _ htaken ?_
    rw [heq]
    simp
  · rw [heq, mem_takenWords_iff, hfree] at htaken
    rcases htaken with h | h | h
    · cases h
    · exact hself h
    · exact hclient h

/-- **A name that the generated code can use** wherever a name of its own may stand. -/
structure IsFreeName (text : String) : Prop where
  ne_empty : text ≠ ""
  /-- Its characters are ASCII characters. -/
  ascii : ∀ c ∈ text.toList, c.toNat < 128
  /-- It has the form of an identifier. -/
  identifier : isIdentifier text = true
  unreserved : isReserved text = false
  /-- It is none of the names that every method uses itself. -/
  ne_self : text ≠ "self"
  ne_client : text ≠ "client"

instance (text : String) : Decidable (IsFreeName text) :=
  decidable_of_iff (text ≠ "" ∧ (∀ c ∈ text.toList, c.toNat < 128) ∧ isIdentifier text = true
      ∧ isReserved text = false ∧ text ≠ "self" ∧ text ≠ "client")
    ⟨fun ⟨hne, hascii, hidentifier, hunreserved, hself, hclient⟩ =>
      ⟨hne, hascii, hidentifier, hunreserved, hself, hclient⟩,
      fun h => ⟨h.ne_empty, h.ascii, h.identifier, h.unreserved, h.ne_self, h.ne_client⟩⟩

/--
**Every name has an identifier that can be used**, whatever characters it has, and the identifier
of an identifier is itself.
-/
theorem isFreeName_identifier (name : String) :
    IsFreeName (identifier name) ∧ identifier (identifier name) = identifier name := by
  have hspelling := isSnakeName_spelling name
  have hmarked := isMarked_spelling name
  have hidentifier := hmarked.isIdentifier_eq hspelling
  have hfree := identifier_notMem_takenWords name
  rw [mem_takenWords_iff, not_or, not_or, Bool.not_eq_true] at hfree
  obtain ⟨hunreserved, hself, hclient⟩ := hfree
  refine ⟨⟨?_, ?_, hidentifier, hunreserved, hself, hclient⟩, identifier_identifier name⟩
  · intro hempty
    rw [hempty] at hidentifier
    cases hidentifier
  · intro c hc
    exact toNat_lt_of_isSmallChar_or_lowLine (hmarked.isSmallChar_or_lowLine hspelling hc)

example : ["", "?!", "1st", "class", "None", "Self", "userID", "ключ"].map identifier
    = ["field", "field", "_1st", "class_", "none", "self_", "user_id", "field"] := by decide

end ApiClientGen.Naming
