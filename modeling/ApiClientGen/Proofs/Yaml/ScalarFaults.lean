/-
Faults of scalars.

A scalar that has no tag is taken for what its text has the shape of, and a text of that shape
is one of that kind, maybe with a part out of range.  So a scalar that is not of its kind has been
tagged, except that the shape does not mind a line break at the end.  The sum of parts to base
sixty is refused when a part counts for more than every number, which takes so many parts that
they can be counted by their colons.
-/
import Mathlib.Data.List.TakeWhile
import ApiClientGen.Proofs.Document.Answers
import ApiClientGen.Proofs.Document.Outcomes
import ApiClientGen.Yaml.Scalar

namespace ApiClientGen.Yaml

open ApiClientGen.Document ApiClientGen.Number ApiClientGen.Text

/-! ### Numbers -/

theorem integerOf_ends (base : Nat) (s : List Char) :
    Ends (fun _ => True) (fun fault => ∃ i, fault = .integer i) (integerOf base s) :=
  Ends.mapError (P := fun _ => True) (F := fun _ => True)
    (Ends.intro (fun _ _ => trivial) fun _ _ => trivial) fun i _ => ⟨i, rfl⟩

/-- An integer without its sign is refused for its digits, or because there is nothing. -/
theorem magnitude_ends (s : List Char) :
    Ends (fun _ => True) (fun fault => (fault = .emptyNumber ∧ s = []) ∨ ∃ i, fault = .integer i)
      (magnitude s) := by
  have hinteger : ∀ base s', Ends (fun _ => True)
      (fun fault => (fault = .emptyNumber ∧ s = []) ∨ ∃ i, fault = .integer i)
      (integerOf base s') := fun base s' =>
    (integerOf_ends base s').mono (fun _ _ => trivial) fun _ hfault => Or.inr hfault
  unfold magnitude
  split
  · exact Or.inl ⟨rfl, rfl⟩
  · trivial
  · exact hinteger 2 _
  · exact hinteger 16 _
  · exact hinteger 8 _
  · split
    · exact (Ends.mapM fun part _ => hinteger 10 part).map fun _ _ => trivial
    · exact hinteger 10 _

theorem mem_takeSign {s : List Char} {c : Char} (hc : c ∈ s) (hsign : c ≠ '-' ∧ c ≠ '+') :
    c ∈ (takeSign s).2 := by
  unfold takeSign
  split <;> simp_all

/-- An integer with a digit is refused for its digits only. -/
theorem integer_ends (s : List Char) :
    Ends (fun _ => True)
      (fun fault => (fault = .emptyNumber ∧ ∀ c ∈ s, c.isDigit = false) ∨ ∃ i, fault = .integer i)
      (integer s) := by
  have hnone : ∀ c ∈ s, c.isDigit = true → c ∈ s.filter (· != '_') := by
    intro c hc hdigit
    refine List.mem_filter.mpr ⟨hc, ?_⟩
    rw [bne_iff_ne]
    rintro rfl
    exact absurd hdigit (by decide)
  have hempty : (s.filter (· != '_')) = [] ∨ (takeSign (s.filter (· != '_'))).2 = [] →
      ∀ c ∈ s, c.isDigit = false := by
    intro hempty c hc
    refine Bool.eq_false_iff.mpr fun hdigit => ?_
    have hmem := hnone c hc hdigit
    rcases hempty with hempty | hempty
    · rw [hempty] at hmem
      cases hmem
    · have hbody := mem_takeSign hmem ⟨by rintro rfl; exact absurd hdigit (by decide),
        by rintro rfl; exact absurd hdigit (by decide)⟩
      rw [hempty] at hbody
      cases hbody
  unfold integer
  dsimp only
  split
  · rename_i hnil
    exact Or.inl ⟨rfl, hempty (Or.inl (by simpa using hnil))⟩
  · refine ((magnitude_ends _).mono (fun _ _ => trivial) fun fault hfault => ?_).map
      fun _ _ => trivial
    exact hfault.imp_left fun ⟨hfault, hnil⟩ => ⟨hfault, hempty (Or.inr hnil)⟩

/-- The parts that are summed up before one counts for more than every number. -/
theorem sexagesimalSum_ends (power : Nat) (parts : List Binary64) (total : Binary64) :
    Ends (fun _ => True) (fun fault => fault = .tooManyParts ∧ 174 < power + parts.length)
      (sexagesimalSum (Nat.pow 60 power) parts total) := by
  have hbound : 60 ^ 173 < fractionBound := by decide +kernel
  induction parts generalizing power total with
  | nil => trivial
  | cons d parts ih =>
      rw [sexagesimalSum]
      by_cases hbeyond : fractionBound ≤ Nat.pow 60 power
      · rw [if_pos hbeyond]
        have hlt : 60 ^ 173 < 60 ^ power := Nat.lt_of_lt_of_le hbound hbeyond
        have hpower : 173 < power := (Nat.pow_lt_pow_iff_right (by decide)).mp hlt
        refine ⟨rfl, ?_⟩
        rw [List.length_cons]
        omega
      · rw [if_neg hbeyond]
        refine (ih (power + 1) _).mono (fun _ _ => trivial) fun fault hfault => ?_
        rw [List.length_cons]
        exact ⟨hfault.1, by omega⟩

theorem length_splitOn (separator : Char) (s : List Char) :
    (splitOn separator s).length = s.count separator + 1 := by
  induction s with
  | nil => rfl
  | cons c rest ih =>
      unfold splitOn
      split
      · rename_i hc
        rw [List.length_cons, ih, hc, List.count_cons_self]
      · rename_i hc
        rw [List.count_cons_of_ne hc, ← ih]
        split
        · rename_i hnil
          exact absurd hnil (splitOn_ne_nil _ _)
        · rename_i hsplit
          rw [hsplit]
          rfl

theorem toLower_eq_colon {c : Char} : (c.toLower == ':') = (c == ':') := by
  rw [Bool.eq_iff_iff, beq_iff_eq, beq_iff_eq]
  unfold Char.toLower
  split
  · rename_i hupper
    constructor
    · intro heq
      have hval := congrArg (fun d : Char => d.val.toNat) heq
      simp only [ge_iff_le, UInt32.le_iff_toNat_le, UInt32.toNat_add] at hupper hval
      simp at hupper hval
      omega
    · rintro rfl
      exact absurd hupper (by decide)
  · exact Iff.rfl

/-- Neither capital letters nor the sign nor low lines matter for the colons of a number. -/
theorem count_colon_body (s : List Char) :
    (takeSign (lowered (s.filter (· != '_')))).2.count ':' = s.count ':' := by
  have hsign : ∀ body : List Char, (takeSign body).2.count ':' = body.count ':' := by
    intro body
    unfold takeSign
    split <;> simp
  rw [hsign, lowered, List.count, List.countP_map]
  calc (s.filter (· != '_')).countP ((· == ':') ∘ Char.toLower)
      = (s.filter (· != '_')).count ':' :=
        List.countP_congr fun c _ => by simp [Function.comp, toLower_eq_colon]
    _ = s.count ':' := List.count_filter (by decide)

theorem fractionOf_ends (s : List Char) :
    Ends (fun _ => True) (fun fault => ∃ text, fault = .fraction text) (fractionOf s) := by
  unfold fractionOf
  split
  · trivial
  · exact ⟨_, rfl⟩

/-- A fractional number that holds anything but low lines is refused for its digits or its parts. -/
theorem fraction_ends (s : List Char) :
    Ends (fun _ => True)
      (fun fault => (fault = .emptyNumber ∧ ∀ c ∈ s, c = '_')
        ∨ (fault = .tooManyParts ∧ 174 ≤ s.count ':') ∨ ∃ text, fault = .fraction text)
      (fraction s) := by
  unfold fraction
  dsimp only
  split
  · rename_i hempty
    refine Or.inl ⟨rfl, ?_⟩
    simpa [lowered] using hempty
  split
  · trivial
  split
  · trivial
  split
  · refine (Ends.mapM (Q := fun _ => True) fun part _ => ?_).bind fun parts hparts => ?_
    · exact (fractionOf_ends part).mono (fun _ _ => trivial) fun _ hfault => Or.inr (Or.inr hfault)
    · have hsum := sexagesimalSum_ends 0 parts.reverse (.finite false 0)
      rw [List.length_reverse, hparts.1, length_splitOn, count_colon_body] at hsum
      refine (hsum.mono (fun _ _ => trivial) fun fault hfault => ?_).bind fun _ _ => trivial
      exact Or.inr (Or.inl ⟨hfault.1, by omega⟩)
  · refine ((fractionOf_ends _).mono (fun _ _ => trivial) fun _ hfault => ?_).bind
      fun _ _ => trivial
    exact Or.inr (Or.inr hfault)

/-! ### Other kinds -/

theorem truthValue_ends (s : List Char) :
    Ends (fun _ => True) (fun fault => fault = .truthValue) (truthValue s) := by
  unfold truthValue
  dsimp only
  split
  · trivial
  split
  · trivial
  · rfl

/-- A text without the line break that it may end in. -/
def withoutBreak (s : List Char) : List Char := if s.getLast? = some '\n' then s.dropLast else s

/-- A text with the shape of a timestamp is refused for parts out of range. -/
theorem timestamp_ends (s : List Char) :
    Ends (fun _ => True)
      (fun fault => (fault = .timestamp ∧ timestamp? (withoutBreak s) = none)
        ∨ ∃ c, fault = .calendar c)
      (timestamp s) := by
  unfold timestamp
  dsimp only
  rw [← withoutBreak]
  cases htime : timestamp? (withoutBreak s) with
  | none => exact Or.inl ⟨rfl, rfl⟩
  | some t =>
      exact Ends.mapError (P := fun _ => True) (F := fun _ => True)
        (Ends.intro (fun _ _ => trivial) fun _ _ => trivial) fun c _ => Or.inr ⟨c, rfl⟩

theorem decodeBytes_ends (held : List Nat) (pads : Nat) (done : List UInt8) (s : List Char) :
    Ends (fun _ => True) (fun fault => fault = .malformed) (decodeBytes held pads done s) := by
  induction s generalizing held pads done with
  | nil =>
      unfold decodeBytes
      split
      · trivial
      · rfl
  | cons c s ih =>
      unfold decodeBytes
      split
      · split
        · split
          · trivial
          · exact ih _ _ _
        · exact ih _ _ _
      · split
        · exact ih _ _ _
        · split <;> exact ih _ _ _

/-! ### Shapes -/

theorem exists_digit_of_isSpacedNumber {s : List Char} (h : isSpacedNumber s = true) :
    ∃ c ∈ s, c.isDigit = true := by
  cases s with
  | nil => cases h
  | cons c s =>
      rw [isSpacedNumber, Bool.and_eq_true] at h
      exact ⟨c, by simp, h.1⟩

theorem mem_of_mem_splitOn {separator c : Char} {s piece : List Char}
    (hpiece : piece ∈ splitOn separator s) (hc : c ∈ piece) : c ∈ s := by
  rw [← intercalate_splitOn separator s, List.intercalate]
  refine List.mem_flatten.mpr ⟨piece, ?_, hc⟩
  generalize splitOn separator s = pieces at hpiece
  induction pieces with
  | nil => cases hpiece
  | cons first rest ih =>
      cases rest with
      | nil => simpa using hpiece
      | cons second rest =>
          rw [List.intersperse_cons_cons]
          rcases List.mem_cons.mp hpiece with rfl | hpiece
          · simp
          · exact List.mem_cons_of_mem _ (List.mem_cons_of_mem _ (ih hpiece))

theorem exists_digit_of_isSexagesimal {s : List Char} (h : isSexagesimal s = true) :
    ∃ c ∈ s, c.isDigit = true := by
  unfold isSexagesimal at h
  split at h
  · rename_i first second more hsplit
    rw [Bool.and_eq_true] at h
    obtain ⟨c, hc, hdigit⟩ := exists_digit_of_isSpacedNumber h.1
    exact ⟨c, mem_of_mem_splitOn (hsplit ▸ List.mem_cons_self) hc, hdigit⟩
  · cases h

theorem mem_of_mem_takeSign {s : List Char} {c : Char} (hc : c ∈ (takeSign s).2) : c ∈ s := by
  unfold takeSign at hc
  split at hc <;> simp_all

/-- A text with the shape of an integer holds a digit. -/
theorem exists_digit_of_isIntegerShape {s : List Char} (h : isIntegerShape s = true) :
    ∃ c ∈ s, c.isDigit = true := by
  suffices hbody : ∃ c ∈ (takeSign s).2, c.isDigit = true by
    obtain ⟨c, hc, hdigit⟩ := hbody
    exact ⟨c, mem_of_mem_takeSign hc, hdigit⟩
  unfold isIntegerShape at h
  dsimp only at h
  split at h
  · rename_i hbody
    exact ⟨'0', by simp [hbody], rfl⟩
  · rename_i hbody
    exact ⟨'0', by simp [hbody], rfl⟩
  · rename_i hbody
    exact ⟨'0', by simp [hbody], rfl⟩
  · rename_i hbody
    exact ⟨'0', by simp [hbody], rfl⟩
  · rw [Bool.or_eq_true] at h
    rcases h with h | h
    · exact exists_digit_of_isSpacedNumber h
    · exact exists_digit_of_isSexagesimal h

theorem mem_of_splitAtFirst {c : Char} {s whole tail : List Char}
    (h : splitAtFirst (· == c) s = (whole, some tail)) : c ∈ s := by
  unfold splitAtFirst at h
  obtain ⟨-, h⟩ := Prod.mk.inj h
  split at h
  · cases h
  · rename_i hdrop
    refine Decidable.by_contra fun hc => ?_
    have hnil : s.dropWhile (fun d => !(d == c)) = [] := by
      refine List.dropWhile_eq_nil_iff.mpr fun d hd => ?_
      have hne : d ≠ c := fun heq => hc (heq ▸ hd)
      simpa using hne
    rw [hnil] at hdrop
    cases hdrop

/-- A text with the shape of a fractional number holds a point. -/
theorem point_mem_of_isFractionShape {s : List Char} (h : isFractionShape s = true) : '.' ∈ s := by
  unfold isFractionShape at h
  dsimp only at h
  split at h
  · simp
  · split at h
    · rename_i hsplit
      exact mem_of_mem_takeSign (mem_of_splitAtFirst hsplit)
    · cases h

theorem mem_of_mem_withoutBreak {s : List Char} {c : Char} (hc : c ∈ withoutBreak s) : c ∈ s := by
  unfold withoutBreak at hc
  split at hc
  · exact List.dropLast_subset _ hc
  · exact hc

theorem shapeKind_float {s : List Char} (h : shapeKind s = .float) :
    isFractionShape (withoutBreak s) = true := by
  grind [shapeKind, withoutBreak]

theorem shapeKind_int {s : List Char} (h : shapeKind s = .int) :
    isIntegerShape (withoutBreak s) = true := by
  grind [shapeKind, withoutBreak]

theorem shapeKind_timestamp {s : List Char} (h : shapeKind s = .timestamp) :
    timestamp? (withoutBreak s) ≠ none := by
  intro hnone
  have hany : ∀ p : Timestamp → Bool, (timestamp? (withoutBreak s)).any p = false := by
    simp [hnone]
  grind [shapeKind, withoutBreak]

/-- The words for truth values. -/
def truthWords : List String := [
  "yes", "Yes", "YES", "no", "No", "NO", "true", "True", "TRUE", "false", "False", "FALSE", "on",
  "On", "ON", "off", "Off", "OFF"]

/-- A truth value in a text without a line break behind it is one. -/
theorem truthValue_of_shapeKind {s : List Char} (h : shapeKind s = .bool)
    (hbreak : s.getLast? ≠ some '\n') : ∃ b, truthValue s = .ok b := by
  have hsame : withoutBreak s = s := if_neg hbreak
  have hwords : ∀ w ∈ truthWords, (truthValue w.toList).toOption.isSome = true := by decide
  have hmem : truthWords.contains (String.ofList (withoutBreak s)) = true := by
    grind [shapeKind, withoutBreak, truthWords]
  have hvalue := hwords _ (List.contains_iff_mem.mp hmem)
  rw [hsame, String.toList_ofList] at hvalue
  exact except_exists_ok hvalue

/-! ### All kinds -/

/--
What a fault says of the kind and the text of its scalar.  For all faults that are named, the kind
is not the one that the text has the shape of, but for a truth value with a line break behind it,
and for numbers with very many parts.
-/
def KindFaults (kind : Kind) (text : List Char) : Fault → Prop
  | .truthValue => kind = .bool ∧ (shapeKind text = .bool → text.getLast? = some '\n')
  | .timestamp => kind = .timestamp ∧ shapeKind text ≠ .timestamp
  | .emptyNumber => (kind = .int ∨ kind = .float) ∧ shapeKind text ≠ kind
  | .tooManyParts => 174 ≤ text.count ':'
  | .timestampMapping | .codeOverflow | .raw _ => False
  | _ => True

/-- **The faults of a scalar** say of what kind it is, and what is wrong with its text. -/
theorem scalarOf_ends (kind : Kind) (text : String) :
    Ends (fun _ => True) (KindFaults kind text.toList) (scalarOf kind text) := by
  unfold scalarOf
  cases kind with
  | null | text => trivial
  | sequence | mapping | merge | value | unknown => trivial
  | bool =>
      refine Ends.map (P := fun _ => True) (Ends.intro (fun _ _ => trivial) fun fault hfault => ?_)
        fun _ _ => trivial
      obtain rfl := (truthValue_ends _).of_error hfault
      refine ⟨rfl, fun hshape => Decidable.by_contra fun hbreak => ?_⟩
      obtain ⟨b, hb⟩ := truthValue_of_shapeKind hshape hbreak
      rw [hb] at hfault
      cases hfault
  | int =>
      refine ((integer_ends _).mono (fun _ _ => trivial) ?_).map fun _ _ => trivial
      rintro _ (⟨rfl, hnone⟩ | ⟨i, rfl⟩)
      · refine ⟨Or.inl rfl, fun hshape => ?_⟩
        obtain ⟨c, hc, hdigit⟩ := exists_digit_of_isIntegerShape (shapeKind_int hshape)
        rw [hnone c (mem_of_mem_withoutBreak hc)] at hdigit
        cases hdigit
      · trivial
  | float =>
      refine ((fraction_ends _).mono (fun _ _ => trivial) ?_).map fun _ _ => trivial
      rintro _ (⟨rfl, hnone⟩ | ⟨rfl, hmany⟩ | ⟨t, rfl⟩)
      · refine ⟨Or.inr rfl, fun hshape => ?_⟩
        have hpoint := point_mem_of_isFractionShape (shapeKind_float hshape)
        exact absurd (hnone '.' (mem_of_mem_withoutBreak hpoint)) (by decide)
      · exact hmany
      · trivial
  | timestamp =>
      refine (timestamp_ends _).mono (fun _ _ => trivial) ?_
      rintro _ (⟨rfl, hnone⟩ | ⟨c, rfl⟩)
      · exact ⟨rfl, fun hshape => shapeKind_timestamp hshape hnone⟩
      · trivial
  | binary =>
      dsimp only
      split
      · refine ((decodeBytes_ends _ _ _ _).mono (fun _ _ => trivial) ?_).map fun _ _ => trivial
        rintro _ rfl
        trivial
      · trivial

end ApiClientGen.Yaml
