/-
The keys that fields are read from.

A record accepts a field under its identifier as well as under the name of its property, so that one
key reaches two fields if an identifier is the name of another property.  Numbers keep identifiers
apart from each other, but nothing keeps them apart from the names.

An identifier asks for itself, and what asks first is given it without a number.  So the name of a
property that is an identifier is safe in front of the property that the identifier is made from,
and is lost to it behind it.  The other danger are the numbers themselves, which matter only if a
property is called like an identifier with a number.
-/
import ApiClientGen.Proofs.Client.FieldNames

namespace ApiClientGen.Client

open ApiClientGen.Code ApiClientGen.Naming ApiClientGen.Settings ApiClientGen.Spec ApiClientGen.Text

variable {name : String} {fields : List RecordField}

/-! ### Identifiers of identifiers -/

/-- What begins like a hidden name or a kept one has low lines in front of its spelling only. -/
theorem dropWhile_identifier (h : beginsWith (identifier name) "_" = true
      ∨ beginsWith (identifier name) "model_" = true) :
    (identifier name).toList.dropWhile (· == '_') = (spelling name).toList := by
  have htaken : ∀ w ∈ takenWords,
      beginsWith (w ++ "_") "_" = false ∧ beginsWith (w ++ "_") "model_" = false := by decide
  have hspelling := isSnakeName_spelling name
  obtain ⟨named, lettered, -, hnamed, hlettered, hcases⟩ := identifier_cases (spelling name)
  rw [identifier_spelling] at hcases
  obtain rfl : named = spelling name := by
    rw [hnamed (by rw [hspelling.snakeCase_eq]; exact hspelling.ne_empty), hspelling.snakeCase_eq]
  rcases hcases with ⟨heq, hword⟩ | ⟨heq, -⟩
  · obtain ⟨hline, hmodel⟩ := htaken lettered (mem_takenWords_iff.mpr hword)
    rw [heq, hline, hmodel] at h
    simp at h
  · obtain ⟨first, -, hfirst, -, hsmall, -⟩ := hspelling.ends
    have hne : first ≠ '_' := by
      rintro rfl
      exact absurd hsmall (by decide)
    have hdrop : ∀ before, (∀ c ∈ before, c = '_') →
        (before ++ (spelling name).toList).dropWhile (· == '_') = (spelling name).toList :=
      fun before hbefore => dropWhile_lowLines hbefore hfirst hne
    rw [heq, hlettered]
    split
    · rw [String.toList_append]
      exact hdrop ['_'] (by simp)
    · have hplain := hdrop [] (by simp)
      rwa [List.nil_append] at hplain

/-- A property called like the identifier of a field has that identifier itself. -/
theorem fieldIdentifier_fieldIdentifier (name : String) :
    fieldIdentifier (fieldIdentifier name) = fieldIdentifier name := by
  have hfollowed : ∀ n ∈ guardedNames, (n ++ "_").toList.head?.any Char.isLower = true →
      fieldIdentifier (n ++ "_") = n ++ "_" := by decide +kernel
  obtain ⟨hfree, -, hmodel⟩ := fieldIdentifier_isFree name
  obtain ⟨-, -, hline⟩ := (isFieldName_fieldIdentifier name).usable
  obtain ⟨first, rest, hlist, hfirst, -⟩ := isFieldName_fieldIdentifier name
  obtain ⟨visible, hvisible, ⟨heq, hguarded⟩ | ⟨heq, -⟩⟩ := fieldIdentifier_cases name
  · rw [heq] at hlist ⊢
    exact hfollowed visible hguarded (by rw [hlist]; exact hfirst)
  · have hself : identifier (fieldIdentifier name) = fieldIdentifier name := by
      rcases hvisible with ⟨hplain, -, -⟩ | ⟨hhidden, hmarked⟩
      · rw [heq, hplain, identifier_identifier]
      · have hfield : IsSnakeName "field" := isSnakeName_of_snakeCase_eq (by decide +kernel) (by decide)
        have hwords : ∀ w ∈ takenWords, beginsWith w "field_" = false := by decide
        have hspelled : visible = "field" ++ "_" ++ spelling name := by
          rw [hmarked, dropWhile_identifier hhidden, String.ofList_toList]
          rfl
        have hsnake : IsSnakeName visible := by
          rw [hspelled]
          exact hfield.joined (isSnakeName_spelling name)
        rw [heq]
        refine hsnake.identifier_eq ?_ fun hword => ?_
        · rw [hspelled, startsWithDigit, String.toList_append, String.toList_append]
          rfl
        · have hbegins := hwords visible hword
          rw [hspelled, beginsWith, String.toList_append] at hbegins
          cases hbegins
    rw [guardedNames, List.mem_append, not_or] at hfree
    generalize fieldIdentifier name = text at *
    simp [fieldIdentifier, hself, hline, hmodel, hfree]

/-! ### Fields read from one key -/

/-- No field of a class is called like another one is known outside. -/
def KeysAreApart (ps : List Code.Parameter) : Prop :=
  ps.Pairwise fun p q => p.name ≠ wireName q ∧ q.name ≠ wireName p

/-- A number behind it makes the identifier of a field the name of another property. -/
def NumberedAsOther (fields : List RecordField) : Prop :=
  ∃ e ∈ (fieldIdentifiers fields).zip fields, e.1 ≠ fieldIdentifier e.2.name
    ∧ ∃ g ∈ fields, g.name ≠ e.2.name ∧ e.1 = g.name

instance : DecidablePred NumberedAsOther := fun fields =>
  inferInstanceAs (Decidable (∃ e ∈ (fieldIdentifiers fields).zip fields,
    e.1 ≠ fieldIdentifier e.2.name ∧ ∃ g ∈ fields, g.name ≠ e.2.name ∧ e.1 = g.name))

theorem length_fieldIdentifiers (fields : List RecordField) :
    (fieldIdentifiers fields).length = fields.length :=
  (forall₂_fieldIdentifiers fields).length_eq.symm

/-- The fields of a class are apart if none has the identifier that is the name of another one. -/
theorem keysAreApart_iff_getElem (fields : List RecordField) :
    KeysAreApart (fieldParameters fields)
      ↔ ∀ i j (hi : i < (fieldIdentifiers fields).length) (hj : j < fields.length), i ≠ j →
        (fieldIdentifiers fields)[i] ≠ fields[j].name := by
  have hlength := length_fieldIdentifiers fields
  have hname : ∀ (x : String) (f : RecordField), (fieldParameter x f).name = x := fun _ _ => rfl
  rw [KeysAreApart, fieldParameters, List.pairwise_map]
  simp only [hname, wireName_fieldParameter, List.pairwise_iff_getElem, List.length_zip,
    List.getElem_zip, hlength, Nat.min_self]
  constructor
  · intro h i j hi hj hij
    rcases Nat.lt_or_gt_of_ne hij with hlt | hgt
    · exact (h i j hi hj hlt).1
    · exact (h j i hj hi hgt).2
  · intro h i j hi hj hlt
    exact ⟨h i j hi hj (Nat.ne_of_lt hlt), h j i hj hi (Nat.ne_of_gt hlt)⟩

/-- The identifier that a field asks for is given to it or to one in front of it. -/
theorem le_of_getElem_eq {i j : Nat} (hi : i < (fieldIdentifiers fields).length)
    (hj : j < fields.length) (h : (fieldIdentifiers fields)[i] = fieldIdentifier fields[j].name) :
    i ≤ j := by
  have hprefix : fieldIdentifiers (fields.take (j + 1)) <+: fieldIdentifiers fields := by
    have hall := distinctNames_isPrefix ((fields.take (j + 1)).map fun f => fieldIdentifier f.name)
      ((fields.drop (j + 1)).map fun f => fieldIdentifier f.name)
    rwa [← List.map_append, List.take_append_drop] at hall
  have hasked : fieldIdentifier fields[j].name ∈ fieldIdentifiers (fields.take (j + 1)) := by
    refine subset_distinctNames _ (List.mem_map.mpr ⟨fields[j], ?_, rfl⟩)
    exact List.mem_take_iff_getElem.mpr ⟨j, by omega, rfl⟩
  obtain ⟨k, hk, hgiven⟩ := List.getElem_of_mem hasked
  have hwithin : k < (fieldIdentifiers fields).length := Nat.lt_of_lt_of_le hk hprefix.length_le
  have hsame : (fieldIdentifiers fields)[k] = (fieldIdentifiers fields)[i] := by
    rw [h, ← hgiven, hprefix.getElem hk]
  have hki := (nodup_distinctNames _).getElem_inj_iff.mp hsame
  rw [length_fieldIdentifiers, List.length_take] at hk
  omega

/-- If the fields are apart, no property is behind another one whose identifier is its name. -/
theorem KeysAreApart.pairwise (h : KeysAreApart (fieldParameters fields)) :
    fields.Pairwise fun f g => g.name ≠ fieldIdentifier f.name := by
  refine List.pairwise_iff_getElem.mpr fun i j hi hj hij heq => ?_
  -- The identifier that the first of the two asks for is given to it or in front of it.
  have hasked : fieldIdentifier fields[i].name ∈ fieldIdentifiers fields :=
    subset_distinctNames _ (List.mem_map_of_mem (List.getElem_mem hi))
  obtain ⟨k, hk, hgiven⟩ := List.getElem_of_mem hasked
  have hle := le_of_getElem_eq hk hi hgiven
  exact (keysAreApart_iff_getElem fields).mp h k j hk hj (by omega) (hgiven.trans heq.symm)

/-- If the fields are apart, no number makes an identifier the name of another property. -/
theorem KeysAreApart.not_numberedAsOther (h : KeysAreApart (fieldParameters fields)) :
    ¬ NumberedAsOther fields := by
  have hlength := length_fieldIdentifiers fields
  rintro ⟨e, he, -, g, hg, hother, heq⟩
  obtain ⟨i, hi, rfl⟩ := List.getElem_of_mem he
  obtain ⟨j, hj, rfl⟩ := List.getElem_of_mem hg
  rw [List.length_zip, hlength, Nat.min_self] at hi
  rw [List.getElem_zip] at hother heq
  refine (keysAreApart_iff_getElem fields).mp h i j (hlength ▸ hi) hj ?_ heq
  rintro rfl
  exact hother rfl

/-- There are no other ways for fields not to be apart. -/
theorem keysAreApart_of_pairwise (hnames : (fields.map RecordField.name).Nodup)
    (hbehind : fields.Pairwise fun f g => g.name ≠ fieldIdentifier f.name)
    (hnumbers : ¬ NumberedAsOther fields) : KeysAreApart (fieldParameters fields) := by
  refine (keysAreApart_iff_getElem fields).mpr fun i j hi hj hij heq => ?_
  have hi' : i < fields.length := length_fieldIdentifiers fields ▸ hi
  by_cases hplain : (fieldIdentifiers fields)[i] = fieldIdentifier fields[i].name
  · rcases Nat.lt_or_gt_of_ne hij with hlt | hgt
    · exact List.pairwise_iff_getElem.mp hbehind i j hi' hj hlt (heq.symm.trans hplain)
    · -- A name that is an identifier asks for itself.
      have hself : fieldIdentifier fields[j].name = fields[j].name := by
        rw [← heq, hplain, fieldIdentifier_fieldIdentifier]
      have hle := le_of_getElem_eq hi hj (heq.trans hself.symm)
      omega
  · have hmem : ((fieldIdentifiers fields)[i], fields[i]) ∈ (fieldIdentifiers fields).zip fields :=
      List.mem_iff_getElem.mpr ⟨i, by rw [List.length_zip]; omega, List.getElem_zip⟩
    refine hnumbers ⟨_, hmem, hplain, fields[j], List.getElem_mem hj, fun hsame => hij ?_, heq⟩
    have hlength : (fields.map RecordField.name).length = fields.length := List.length_map _
    have hnamed : (fields.map RecordField.name)[i] = (fields.map RecordField.name)[j] := by
      rw [List.getElem_map, List.getElem_map, hsame]
    exact hnames.getElem_inj_iff.mp hnamed

/-- A number matters only if a property is called like an identifier with a number. -/
theorem NumberedAsOther.exists_numbered (h : NumberedAsOther fields) :
    ∃ f ∈ fields, ∃ g ∈ fields, ∃ n, g.name = numbered (fieldIdentifier f.name) n := by
  obtain ⟨e, he, hother, g, hg, -, heq⟩ := h
  obtain hplain | ⟨n, hnumber⟩ := (List.forall₂_iff_zip.mp (forall₂_fieldIdentifiers fields).flip).2 he
  · exact absurd hplain hother
  · exact ⟨e.2, (List.of_mem_zip he).2, g, hg, n, heq.symm.trans hnumber⟩

/--
**Fields are read from different keys**, though a field is known by its identifier as well as by
the name of its property, if and only if no property is behind another one whose identifier is its
name, and no number makes an identifier the name of another property.  If no property is called like
an identifier with a number, the first is all that matters.
-/
theorem keysAreApart_iff (hnames : (fields.map RecordField.name).Nodup) :
    (KeysAreApart (fieldParameters fields)
        ↔ (fields.Pairwise fun f g => g.name ≠ fieldIdentifier f.name)
          ∧ ¬ NumberedAsOther fields)
      ∧ ((∀ f ∈ fields, ∀ g ∈ fields, ∀ n, g.name ≠ numbered (fieldIdentifier f.name) n) →
        (KeysAreApart (fieldParameters fields)
          ↔ fields.Pairwise fun f g => g.name ≠ fieldIdentifier f.name)) := by
  refine ⟨⟨fun h => ⟨h.pairwise, h.not_numberedAsOther⟩,
    fun h => keysAreApart_of_pairwise hnames h.1 h.2⟩, fun hunmarked => ⟨fun h => h.pairwise, ?_⟩⟩
  refine fun hbehind => keysAreApart_of_pairwise hnames hbehind fun hnumbers => ?_
  obtain ⟨f, hf, g, hg, n, heq⟩ := hnumbers.exists_numbered
  exact hunmarked f hf g hg n heq

/-- A name in front of what is spelled like it is safe. -/
theorem keysAreApart_userFields :
    KeysAreApart (fieldParameters (textFields ["user_name", "userName", "id"])) :=
  ((keysAreApart_iff (by decide)).1).mpr ⟨by decide +kernel, by decide +kernel⟩

/-- **One key reaches two fields** if a name is behind what is spelled like it, or has a number. -/
theorem not_keysAreApart_userFields :
    (fieldParameters (textFields ["userName", "user_name"])).map (fun p => (p.name, wireName p))
        = [("user_name", "userName"), ("user_name_2", "user_name")]
      ∧ (fieldParameters (textFields ["a", "A", "a_2"])).map (fun p => (p.name, wireName p))
        = [("a", "a"), ("a_2", "A"), ("a_2_2", "a_2")]
      ∧ ¬ (∀ fields : List RecordField, (fields.map RecordField.name).Nodup →
        KeysAreApart (fieldParameters fields)) := by
  have hkeys : (fieldParameters (textFields ["userName", "user_name"])).map
        (fun p => (p.name, wireName p))
      = [("user_name", "userName"), ("user_name_2", "user_name")] := by decide +kernel
  refine ⟨hkeys, by decide +kernel, fun h => ?_⟩
  have hapart := h (textFields ["userName", "user_name"]) (by decide)
  have hpairs : ((fieldParameters (textFields ["userName", "user_name"])).map
      fun p => (p.name, wireName p)).Pairwise fun p q => p.1 ≠ q.2 ∧ q.1 ≠ p.2 :=
    List.pairwise_map.mpr hapart
  rw [hkeys] at hpairs
  exact absurd hpairs (by decide)

end ApiClientGen.Client
