/-
Bare words in YAML.

The words for scalars in JSON stand for the same scalars in YAML: null, the truth values, integers,
and fractional numbers with a point.  Without a point a word in scientific notation would be a text.
-/
import ApiClientGen.Proofs.Json.ReadBack
import ApiClientGen.Proofs.Yaml.ScalarFaults

namespace ApiClientGen.Yaml

open ApiClientGen.Document ApiClientGen.Json ApiClientGen.Number ApiClientGen.Text

/-! ### Shapes -/

theorem withoutBreak_word {w : List Char} (h : ∀ c ∈ w, isWordChar c = true) :
    withoutBreak w = w := by
  refine if_neg fun hlast => ?_
  exact absurd (h '\n' (List.mem_of_getLast? hlast)) (by decide)

/-- No word for a truth value holds a digit. -/
theorem not_truthWord {w : List Char} {c : Char} (hmem : c ∈ w) (hc : c.isDigit = true) :
    truthWords.contains (String.ofList w) = false := by
  rw [Bool.eq_false_iff]
  intro h
  have hall : ∀ t ∈ truthWords, t.toList.any Char.isDigit = false := by decide
  have hnone := hall _ (List.contains_iff_mem.mp h)
  rw [String.toList_ofList, List.any_eq_false] at hnone
  exact hnone c hmem hc

theorem isSpacedNumber_of_areDigits {ds : List Char} (h : AreDigits ds) : isSpacedNumber ds = true := by
  obtain ⟨c, rest, rfl⟩ := List.exists_cons_of_ne_nil h.ne_nil
  rw [isSpacedNumber, h.digits c (by simp), Bool.true_and, List.all_eq_true]
  intro d hd
  rw [h.digits d (List.mem_cons_of_mem c hd), Bool.true_or]

theorem isExponentShape_powerChars (w : FractionWord) : isExponentShape w.powerChars = true := by
  unfold FractionWord.powerChars
  cases hpower : w.power with
  | none => rfl
  | some p =>
      have hdigits := w.arePower p hpower
      have hall : allSome Char.isDigit p.2 = true := by
        rw [allSome, List.isEmpty_eq_false_iff.mpr hdigits.ne_nil]
        exact List.all_eq_true.mpr hdigits.digits
      obtain ⟨negative, ds⟩ := p
      cases negative <;> exact hall

theorem isFractionTail_fraction (w : FractionWord) :
    isFractionTail (w.fraction ++ w.powerChars) = true := by
  have hdrop : (w.fraction ++ w.powerChars).dropWhile (fun c => c.isDigit || c == '_')
      = w.powerChars := by
    rw [List.dropWhile_append_of_pos fun c hc => by simp [w.areFraction.digits c hc]]
    unfold FractionWord.powerChars
    cases w.power <;> rfl
  rw [isFractionTail, hdrop, isExponentShape_powerChars]

/-- A number does not begin with a point. -/
theorem head?_signed {c : Char} (hc : c.isDigit = true) (negative : Bool) (s : List Char) :
    (signed negative (c :: s)).head? ≠ some '.' := by
  cases negative with
  | true => exact fun h => absurd (Option.some.inj h) (by decide)
  | false =>
      rintro h
      cases h
      exact absurd hc (by decide)

theorem isFractionShape_chars (w : FractionWord) : isFractionShape w.chars = true := by
  obtain ⟨c, rest, hbody, hc⟩ := w.exists_body
  have hpoint : w.chars.head? ≠ some '.' := by
    rw [FractionWord.chars, hbody]
    exact head?_signed hc w.negative rest
  have hsplit : splitAtFirst (· == '.') w.body
      = (w.whole, some (w.fraction ++ w.powerChars)) := by
    rw [FractionWord.body, List.append_assoc, List.cons_append]
    exact splitAtFirst_append (fun c hc => ne_point_of_isDigit (w.areWhole.digits c hc)) (by decide) _
  unfold isFractionShape
  rw [w.takeSign_chars]
  dsimp only
  split
  · rename_i heq
    rw [heq] at hpoint
    exact absurd rfl hpoint
  · rw [hsplit]
    dsimp only
    rw [isSpacedNumber_of_areDigits w.areWhole.toAreDigits, isFractionTail_fraction]
    simp

theorem takeSign_integer (negative : Bool) {ds : List Char} (hds : AreDigits ds) :
    takeSign (signed negative ds) = (negative, ds) := by
  obtain ⟨c, rest, rfl⟩ := List.exists_cons_of_ne_nil hds.ne_nil
  exact takeSign_signed negative (hds.digits c (by simp)) rest

theorem isFractionShape_integer (negative : Bool) {ds : List Char} (hds : AreWhole ds) :
    isFractionShape (signed negative ds) = false := by
  have hsplit : splitAtFirst (· == '.') ds = (ds, none) :=
    splitAtFirst_none fun c hc => ne_point_of_isDigit (hds.digits c hc)
  have hpoint : (signed negative ds).head? ≠ some '.' := by
    obtain ⟨c, rest, rfl⟩ := List.exists_cons_of_ne_nil hds.ne_nil
    exact head?_signed (hds.digits c (by simp)) negative rest
  unfold isFractionShape
  rw [takeSign_integer negative hds.toAreDigits]
  dsimp only
  split
  · rename_i heq
    rw [heq] at hpoint
    exact absurd rfl hpoint
  · rw [hsplit]

theorem isIntegerShape_integer (negative : Bool) {ds : List Char} (hds : AreWhole ds) :
    isIntegerShape (signed negative ds) = true := by
  have hzero : ∀ d rest, ds ≠ '0' :: d :: rest := by
    rintro d rest rfl
    cases hds.zero rfl
  unfold isIntegerShape
  rw [takeSign_integer negative hds.toAreDigits]
  dsimp only
  split
  · rfl
  · exact absurd rfl (hzero _ _)
  · exact absurd rfl (hzero _ _)
  · rename_i rest hone _ _
    cases rest with
    | nil => exact absurd rfl hone
    | cons d rest => exact absurd rfl (hzero d rest)
  · rw [isSpacedNumber_of_areDigits hds.toAreDigits, Bool.true_or]

/-- A word with a digit that has the shape of a number is one of its kind. -/
theorem shapeKind_number {w : List Char} (hw : ∀ c ∈ w, isWordChar c = true) {c : Char}
    (hmem : c ∈ w) (hc : c.isDigit = true)
    (hshape : isFractionShape w = true ∨ isIntegerShape w = true) :
    shapeKind w = if isFractionShape w then .float else .int := by
  have hsame : (if w.getLast? = some '\n' then w.dropLast else w) = w := withoutBreak_word hw
  have hnone := not_truthWord hmem hc
  rw [truthWords] at hnone
  unfold shapeKind
  dsimp only
  rw [hsame, hnone, if_neg Bool.false_ne_true]
  by_cases hfraction : isFractionShape w = true
  · rw [if_pos hfraction, if_pos hfraction]
  · rw [if_neg hfraction, if_neg hfraction, if_pos (hshape.resolve_left hfraction)]

theorem shapeKind_integer (negative : Bool) {ds : List Char} (hds : AreWhole ds) :
    shapeKind (signed negative ds) = .int := by
  obtain ⟨c, rest, heq⟩ := List.exists_cons_of_ne_nil hds.ne_nil
  have hchars := isWordChar_of_mem_signed negative fun c hc =>
    isWordChar_of_isDigit (hds.digits c hc)
  have hmem : c ∈ signed negative ds := mem_signed negative (by simp [heq])
  rw [shapeKind_number hchars hmem (hds.digits c (by simp [heq]))
    (Or.inr (isIntegerShape_integer negative hds)), isFractionShape_integer negative hds]
  rfl

theorem shapeKind_fraction (w : FractionWord) : shapeKind w.chars = .float := by
  obtain ⟨c, rest, heq, hc⟩ := w.exists_body
  have hmem : c ∈ w.chars := mem_signed w.negative (by simp [heq])
  have hshape := isFractionShape_chars w
  rw [shapeKind_number w.isWordChar_of_mem_chars hmem hc (Or.inl hshape), hshape]
  rfl

/-! ### Values -/

theorem filter_word {w : List Char} (h : ∀ c ∈ w, isWordChar c = true) :
    w.filter (· != '_') = w := by
  exact List.filter_eq_self.mpr fun c hc => bne_iff_ne.mpr (ne_of_test (h c hc) (by decide))

theorem integer_signed (negative : Bool) {ds : List Char} (hds : AreWhole ds)
    (hfew : ds.length ≤ digitLimit) :
    integer (signed negative ds)
      = .ok (if negative then -(digitsNumber ds : Int) else digitsNumber ds) := by
  have hchars := isWordChar_of_mem_signed negative fun c hc =>
    isWordChar_of_isDigit (hds.digits c hc)
  have hread : integerOf 10 ds = .ok (digitsNumber ds) := by
    have hint := readInteger_signed false hds
    rw [if_neg (Nat.not_lt.mpr hfew)] at hint
    exact congrArg (Except.mapError Fault.integer) hint
  have hmagnitude : magnitude ds = .ok (digitsNumber ds) := by
    have hcolon : ds.contains ':' = false := by
      rw [List.contains_eq_mem, decide_eq_false_iff_not]
      exact fun hmem => absurd (hds.digits ':' hmem) (by decide)
    unfold magnitude
    split
    · exact absurd rfl hds.ne_nil
    · rfl
    · cases hds.zero rfl
    · cases hds.zero rfl
    · rename_i hone _ _
      exact absurd (List.cons.inj (hds.zero rfl)).2 hone
    · rw [hcolon, if_neg Bool.false_ne_true, hread]
  unfold integer
  rw [filter_word hchars]
  dsimp only
  rw [isEmpty_signed negative hds.ne_nil, takeSign_integer negative hds.toAreDigits]
  dsimp only
  rw [hmagnitude]
  rfl

/-- The letters of a fractional number are small. -/
theorem lowered_chars (w : FractionWord) : lowered w.chars = w.chars := by
  have hdigit : ∀ c : Char, c.isDigit = true → c.toLower = c := by
    intro c hc
    have hbound := toNat_lt_of_isWordChar (isWordChar_of_isDigit hc)
    exact of_ascii (P := fun c => c.isDigit = true → c.toLower = c) (by decide)
      (Nat.lt_trans hbound.2 (by decide)) hc
  have hmark : ∀ c ∈ ['.', 'e', '-', '+'], c.toLower = c := by
    simp only [List.forall_mem_cons, List.not_mem_nil, false_imp_iff, implies_true, and_true]
    decide
  have hsame : ∀ c ∈ w.chars, c.toLower = id c := fun c hc =>
    (w.isDigit_or_of_mem_chars hc).elim (hdigit c) (hmark c)
  rw [lowered, List.map_congr_left hsame, List.map_id]

theorem fraction_chars (w : FractionWord) : fraction w.chars = .ok w.value := by
  obtain ⟨c, rest, hbody, hc⟩ := w.exists_body
  have hempty : w.chars.isEmpty = false := isEmpty_signed w.negative (by simp [hbody])
  have hname : ∀ name : List Char, name.head? = some '.' → w.body ≠ name := by
    rintro name hname rfl
    rw [hbody] at hname
    cases hname
    exact absurd hc (by decide)
  have hcolon : w.body.contains ':' = false := by
    rw [List.contains_eq_mem, decide_eq_false_iff_not]
    intro hmem
    rcases w.isDigit_or_of_mem_body hmem with h | h <;> exact absurd h (by decide)
  have hread : fractionOf w.body = .ok w.unsigned.value := by
    rw [fractionOf, w.readFraction?_body]
  unfold fraction
  rw [filter_word w.isWordChar_of_mem_chars, lowered_chars]
  dsimp only
  rw [hempty, w.takeSign_chars]
  dsimp only
  rw [if_neg Bool.false_ne_true, if_neg (hname _ rfl), if_neg (hname _ rfl), hcolon,
    if_neg Bool.false_ne_true, hread, w.value_eq]
  rfl

/-- **A bare word** stands for the scalar that it was written for. -/
theorem scalarOf_scalarWord {s : Scalar} (hs : IsPortableScalar s) (hfew : HasFewDigits s)
    (htext : ∀ text, s ≠ .string text) :
    shapeKind (scalarWord s) ∈ [.null, .bool, .int, .float]
      ∧ scalarOf (shapeKind (scalarWord s)) (String.ofList (scalarWord s)) = .ok (reread s) := by
  cases s with
  | null => exact ⟨by decide, by decide⟩
  | bool b => cases b <;> exact ⟨by decide, by decide⟩
  | int i =>
      have hwhole := areWhole_toDigits i.natAbs
      rw [scalarWord, toList_toString_int, shapeKind_integer _ hwhole]
      refine ⟨by decide, ?_⟩
      have hread := integer_signed (decide (i < 0)) hwhole hfew
      rw [digitsNumber_toDigits] at hread
      have hsame : (if decide (i < 0) then -(i.natAbs : Int) else i.natAbs) = i := by
        simp only [decide_eq_true_eq]
        split <;> omega
      rw [hsame] at hread
      simp only [scalarOf, String.toList_ofList, hread]
      rfl
  | float x =>
      obtain ⟨w, hw⟩ := exists_fractionWord hs.1 hs.2
      rw [scalarWord_float hs.1, hw, shapeKind_fraction w]
      refine ⟨by decide, ?_⟩
      simp only [scalarOf, String.toList_ofList, fraction_chars, reread, hw,
        w.readFraction?_chars]
      rfl
  | string text => exact absurd rfl (htext text)
  | date | moment | clock | bytes => exact hs.elim

end ApiClientGen.Yaml
