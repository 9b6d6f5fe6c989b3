/-
Reading back what was written.

A portable value that was written as JSON text is read back as it is; only its fractional numbers
are what the words for them stand for.  A text that is accepted therefore tells that all its
integers have few enough digits.
-/
import ApiClientGen.Proofs.Document.Answers
import ApiClientGen.Proofs.Document.Tables
import ApiClientGen.Proofs.Json.QuotedTexts

namespace ApiClientGen.Json

open ApiClientGen.Document ApiClientGen.Number

/-! ### Numbers -/

/-- What may follow a value: a comma, a closing bracket, or nothing. -/
def IsStop (rest : List Char) : Prop := ∀ c ∈ rest.head?, c = ',' ∨ c = ']' ∨ c = '\x7d'

theorem isStop_nil : IsStop [] := by
  intro c hc
  cases hc

/-- A digit does not go on with what follows a value. -/
theorem leadingDigits_append {ds : List Char} (hds : ∀ c ∈ ds, c.isDigit = true) {tail : List Char}
    (htail : ∀ c ∈ tail.head?, c.isDigit = false) :
    leadingDigits (ds ++ tail) = (ds, tail) := by
  unfold leadingDigits
  rw [List.takeWhile_append_of_pos hds, List.dropWhile_append_of_pos hds]
  cases tail with
  | nil => simp
  | cons c tail => simp [htail c (by simp)]

theorem IsStop.not_isDigit {rest : List Char} (h : IsStop rest) :
    ∀ c ∈ rest.head?, c.isDigit = false := by
  intro c hc
  rcases h c hc with rfl | rfl | rfl <;> decide

theorem fractionPart_of_head {s : List Char} (h : s.head? ≠ some '.') : fractionPart s = ([], s) := by
  unfold fractionPart
  split
  · simp at h
  · rfl

theorem fractionPart_point {ds : List Char} (hds : AreDigits ds) {tail : List Char}
    (htail : ∀ c ∈ tail.head?, c.isDigit = false) :
    fractionPart ('.' :: (ds ++ tail)) = (ds, tail) := by
  simp only [fractionPart, leadingDigits_append hds.digits htail]
  rw [if_neg (by simpa using hds.ne_nil)]

theorem exponentPart_of_isStop {rest : List Char} (h : IsStop rest) :
    exponentPart rest = (none, rest) := by
  unfold exponentPart
  split
  · rename_i c more
    rw [if_neg ?_]
    rcases h c (by simp) with rfl | rfl | rfl <;> decide
  · rfl

theorem exponentPart_letter (negative : Bool) {ds : List Char} (hds : AreDigits ds)
    {rest : List Char} (hrest : IsStop rest) :
    exponentPart ('e' :: (if negative then '-' else '+') :: (ds ++ rest))
      = (some (if negative then -(digitsNumber ds : Int) else digitsNumber ds), rest) := by
  have hsign : takeSign ((if negative then '-' else '+') :: (ds ++ rest)) = (negative, ds ++ rest) := by
    cases negative <;> rfl
  unfold exponentPart
  dsimp only
  rw [hsign]
  dsimp only
  rw [leadingDigits_append hds.digits hrest.not_isDigit]
  dsimp only
  rw [if_pos (Or.inl rfl), if_neg (by simpa using hds.ne_nil)]
  rfl

/-- The whole part of a number is its digits, of which a zero is the only one. -/
theorem wholePart_append {ds : List Char} (hds : AreWhole ds) {tail : List Char}
    (htail : ∀ c ∈ tail.head?, c.isDigit = false) : wholePart (ds ++ tail) = (ds, tail) := by
  unfold wholePart
  split
  · rename_i rest heq
    obtain ⟨c, more, hcons⟩ := List.exists_cons_of_ne_nil hds.ne_nil
    rw [hcons] at heq hds ⊢
    cases heq
    cases hds.zero rfl
    rfl
  · exact leadingDigits_append hds.digits htail

theorem takeMinus_signed (negative : Bool) {ds : List Char} (hds : AreDigits ds)
    (tail : List Char) : takeMinus (signed negative ds ++ tail) = (negative, ds ++ tail) := by
  cases negative with
  | true => rfl
  | false =>
      obtain ⟨c, more, rfl⟩ := List.exists_cons_of_ne_nil hds.ne_nil
      have hc := hds.digits c (by simp)
      unfold takeMinus
      split
      · rename_i heq
        cases heq
        exact absurd hc (by decide)
      · rfl

/-- A number without a fraction is an integer. -/
theorem number_integer (negative : Bool) {ds : List Char} (hds : AreWhole ds) {rest : List Char}
    (hrest : IsStop rest) :
    number (signed negative ds ++ rest)
      = match readInteger 10 (signed negative ds) with
        | .ok i => .ok (.int i, rest)
        | .error fault => .error (.integer fault) := by
  have hpoint : rest.head? ≠ some '.' := by
    intro hhead
    rcases hrest '.' hhead with h | h | h <;> exact absurd h (by decide)
  unfold number
  rw [takeMinus_signed negative hds.toAreDigits]
  dsimp only
  rw [wholePart_append hds hrest.not_isDigit]
  dsimp only
  rw [fractionPart_of_head hpoint]
  dsimp only
  rw [exponentPart_of_isStop hrest, if_neg (by simpa using hds.ne_nil), if_pos ⟨rfl, rfl⟩]
  rfl

/-- A number with a fraction is the one that its digits stand for. -/
theorem number_fraction (w : FractionWord) {rest : List Char} (hrest : IsStop rest) :
    number (w.chars ++ rest) = .ok (.scalar (.float (w.value)), rest) := by
  have hchars : w.chars ++ rest
      = signed w.negative w.whole ++ '.' :: (w.fraction ++ (w.powerChars ++ rest)) := by
    simp [FractionWord.chars, FractionWord.body, signed_append]
  have hpower : ∀ c ∈ (w.powerChars ++ rest).head?, c.isDigit = false := by
    unfold FractionWord.powerChars
    split
    · exact hrest.not_isDigit
    · rintro c ⟨⟩
      decide
  have hexponent : exponentPart (w.powerChars ++ rest)
      = (if w.power.isNone then none else some w.exponent, rest) := by
    unfold FractionWord.powerChars FractionWord.exponent
    split
    · rename_i hnone
      rw [hnone]
      exact exponentPart_of_isStop hrest
    · rename_i negative ds hsome
      rw [hsome]
      exact exponentPart_letter negative (w.arePower _ hsome) hrest
  rw [hchars]
  unfold number
  rw [takeMinus_signed w.negative w.areWhole.toAreDigits]
  dsimp only
  rw [wholePart_append w.areWhole (by rintro c ⟨⟩; decide)]
  dsimp only
  rw [fractionPart_point w.areFraction hpower]
  dsimp only
  rw [hexponent]
  dsimp only
  rw [if_neg (by simpa using w.areWhole.ne_nil), if_neg (by simp [w.areFraction.ne_nil])]
  have hvalue : (if w.power.isNone then none else some w.exponent).getD 0 = w.exponent := by
    unfold FractionWord.exponent
    cases w.power <;> rfl
  rw [hvalue]
  rfl

/-! ### Scalars -/

/-- A scalar as it is read back: a fractional number is what its text stands for. -/
def reread : Scalar → Scalar
  | .float x => .float ((readFraction? x.text.toList).getD x)
  | s => s

/-- An integer has few enough digits to be read back. -/
def HasFewDigits : Scalar → Prop
  | .int i => (Nat.toDigits 10 i.natAbs).length ≤ digitLimit
  | _ => True

/-- Behind its sign, no word for a value begins with a digit. -/
theorem wordValues_letters : ∀ w ∈ wordValues, ∃ negative first more,
    w.1.toList = signed negative (first :: more) ∧ first.isDigit = false ∧ first ≠ '-' := by
  intro w hw
  simp only [wordValues, List.mem_cons, List.not_mem_nil, or_false] at hw
  rcases hw with rfl | rfl | rfl | rfl | rfl | rfl
  · exact ⟨false, 'n', _, rfl, rfl, by decide⟩
  · exact ⟨false, 't', _, rfl, rfl, by decide⟩
  · exact ⟨false, 'f', _, rfl, rfl, by decide⟩
  · exact ⟨false, 'N', _, rfl, rfl, by decide⟩
  · exact ⟨false, 'I', _, rfl, rfl, by decide⟩
  · exact ⟨true, 'I', _, rfl, rfl, by decide⟩

/-- No word for a value begins a number. -/
theorem leaf_number {c : Char} (hc : c.isDigit = true) (negative : Bool) (s : List Char) :
    leaf (signed negative (c :: s)) = number (signed negative (c :: s)) := by
  have hwords : (wordValues.findSome? fun w =>
      (afterWord? w.1 (signed negative (c :: s))).map fun rest => (w.2, rest)) = none := by
    refine List.findSome?_eq_none_iff.mpr fun w hw => ?_
    obtain ⟨minus, first, more, hword, hletter, hminus⟩ := wordValues_letters w hw
    have hdiffer : (first == c) = false := beq_eq_false_iff_ne.mpr (ne_of_test hc hletter).symm
    have hsign : ('-' == c) = false :=
      beq_eq_false_iff_ne.mpr (ne_of_test hc (by decide : '-'.isDigit = false)).symm
    rw [Option.map_eq_none_iff, afterWord?, hword, if_neg]
    cases minus <;> cases negative <;>
      simp [signed, List.isPrefixOf, hdiffer, hsign, hminus]
  unfold leaf
  split
  · rename_i heq
    cases negative with
    | true => cases heq
    | false =>
        cases heq
        exact absurd hc (by decide)
  · rw [hwords]

theorem leaf_integer (negative : Bool) {ds : List Char} (hds : AreWhole ds) {rest : List Char}
    (hrest : IsStop rest) :
    leaf (signed negative ds ++ rest)
      = if digitLimit < ds.length then .error (.integer (.tooManyDigits ds.length))
        else .ok (.int (if negative then -(digitsNumber ds : Int) else digitsNumber ds), rest) := by
  have hnumber := number_integer negative hds hrest
  rw [readInteger_signed negative hds] at hnumber
  obtain ⟨c, more, rfl⟩ := List.exists_cons_of_ne_nil hds.ne_nil
  rw [signed_append, List.cons_append] at hnumber ⊢
  rw [leaf_number (hds.digits c (by simp)), hnumber]
  by_cases hmany : digitLimit < (c :: more).length
  · rw [if_pos hmany, if_pos hmany]
  · rw [if_neg hmany, if_neg hmany]

theorem leaf_fraction (w : FractionWord) {rest : List Char} (hrest : IsStop rest) :
    leaf (w.chars ++ rest) = .ok (.scalar (.float w.value), rest) := by
  have hnumber := number_fraction w hrest
  obtain ⟨c, more, hbody, hc⟩ := w.exists_body
  have hchars : w.chars ++ rest = signed w.negative (c :: (more ++ rest)) := by
    rw [FractionWord.chars, hbody, signed_append, List.cons_append]
  rw [hchars] at hnumber ⊢
  rw [leaf_number hc, hnumber]

theorem leaf_quoted {s : String} (hs : IsBasic s) (rest : List Char) :
    leaf (quoted s ++ rest) = .ok (.string s, rest) := by
  have hread := quotedRest_escaped [] s.toList rest hs
  rw [List.reverse_nil, List.nil_append, String.ofList_toList] at hread
  rw [quoted, List.cons_append, List.append_assoc]
  show (quotedRest [] (s.toList.flatMap escaped ++ '"' :: rest) >>= _) = _
  rw [hread]
  rfl

/-- A scalar that is read back is what it was, and it can be read back for its digits. -/
theorem leaf_scalarWord {s : Scalar} (hs : IsPortableScalar s) {rest : List Char}
    (hrest : IsStop rest) {w : Value} {rest' : List Char}
    (h : leaf (scalarWord s ++ rest) = .ok (w, rest')) :
    rest' = rest ∧ w = .scalar (reread s) ∧ HasFewDigits s := by
  cases s with
  | null =>
      cases h
      exact ⟨rfl, rfl, trivial⟩
  | bool b =>
      cases b <;>
      · cases h
        exact ⟨rfl, rfl, trivial⟩
  | int i =>
      rw [scalarWord, toList_toString_int, leaf_integer _ (areWhole_toDigits _) hrest] at h
      split at h
      · cases h
      · rename_i hfew
        cases h
        refine ⟨rfl, ?_, Nat.not_lt.mp hfew⟩
        rw [digitsNumber_toDigits]
        simp only [decide_eq_true_eq, reread]
        congr 2
        split <;> omega
  | float x =>
      obtain ⟨hfinite, hpoint⟩ := hs
      obtain ⟨word, hword⟩ := exists_fractionWord hfinite hpoint
      rw [scalarWord_float hfinite, hword, leaf_fraction word hrest] at h
      cases h
      refine ⟨rfl, ?_, trivial⟩
      rw [reread, hword, word.readFraction?_chars]
      rfl
  | string text =>
      rw [scalarWord, leaf_quoted hs] at h
      cases h
      exact ⟨rfl, rfl, trivial⟩
  | date | moment | clock | bytes => exact hs.elim

/-! ### Values -/

mutual

/-- A value as it is read back. -/
def readBack : Value → Value
  | .scalar s => .scalar (reread s)
  | .list items => .list (readBackItems items)
  | .mapping fields => .mapping (readBackFields fields)

/-- The items of a list as they are read back. -/
def readBackItems : List Value → List Value
  | [] => []
  | v :: rest => readBack v :: readBackItems rest

/-- The fields of a mapping as they are read back. -/
def readBackFields : List (String × Value) → List (String × Value)
  | [] => []
  | (k, v) :: rest => (k, readBack v) :: readBackFields rest

end

theorem keys_readBackFields (fs : List (String × Value)) :
    Fields.keys (readBackFields fs) = Fields.keys fs := by
  induction fs with
  | nil => rfl
  | cons e fs ih => exact congrArg (e.1 :: ·) ih

/-- All scalars of a value satisfy `P`. -/
inductive AllScalars (P : Scalar → Prop) : Value → Prop where
  | scalar {s : Scalar} (h : P s) : AllScalars P (.scalar s)
  | list {items : List Value} (h : ∀ v ∈ items, AllScalars P v) : AllScalars P (.list items)
  | mapping {fields : List (String × Value)} (h : ∀ e ∈ fields, AllScalars P e.2) :
      AllScalars P (.mapping fields)

/-- A scalar begins with a character that is no space and no bracket. -/
theorem exists_scalarWord {s : Scalar} (hs : IsPortableScalar s) :
    ∃ c rest, scalarWord s = c :: rest ∧ isSpace c = false
      ∧ c ≠ ']' ∧ c ≠ '[' ∧ c ≠ '\x7b' := by
  rcases text_or_bareWord hs with ⟨text, rfl, -⟩ | ⟨-, hbare⟩
  · exact ⟨'"', _, rfl, by decide⟩
  · obtain ⟨c, rest, heq⟩ := hbare.exists_cons
    have hc := hbare.chars c (by simp [heq])
    have hne : ∀ d, isWordChar d = false → c ≠ d := fun _ => ne_of_test hc
    refine ⟨c, rest, heq, ?_, hne ']' (by decide), hne '[' (by decide), hne '\x7b' (by decide)⟩
    simp [isSpace, hne ' ' (by decide), hne '\t' (by decide), hne '\n' (by decide),
      hne '\r' (by decide)]

/-- A value begins with a character that is no space and does not close a list. -/
theorem exists_written {v : Value} (hv : IsPortable v) :
    ∃ c rest, written v = c :: rest ∧ isSpace c = false ∧ c ≠ ']' := by
  cases hv with
  | scalar h =>
      obtain ⟨c, rest, heq, hspace, hclose, -⟩ := exists_scalarWord h
      exact ⟨c, rest, heq, hspace, hclose⟩
  | list => exact ⟨'[', _, rfl, by decide⟩
  | mapping => exact ⟨'\x7b', _, rfl, by decide⟩

theorem skipSpaces_of_not_isSpace {c : Char} (hc : isSpace c = false) (s : List Char) :
    skipSpaces (c :: s) = c :: s := by
  rw [skipSpaces, List.dropWhile_cons_of_neg]
  simp [hc]

theorem skipSpaces_written {v : Value} (hv : IsPortable v) (rest : List Char) :
    skipSpaces (written v ++ rest) = written v ++ rest := by
  obtain ⟨c, s, heq, hspace, -⟩ := exists_written hv
  rw [heq, List.cons_append, skipSpaces_of_not_isSpace hspace]

theorem isStop_cons {c : Char} (hc : c = ',' ∨ c = ']' ∨ c = '\x7d') (s : List Char) :
    IsStop (c :: s) := by
  rintro d ⟨⟩
  exact hc

/-- A scalar is read as a leaf. -/
theorem value_scalar {s : Scalar} (hs : IsPortableScalar s) (level : Nat) (rest : List Char) :
    value level (scalarWord s ++ rest) = leaf (scalarWord s ++ rest) := by
  obtain ⟨c, more, heq, -, -, hbracket, hbrace⟩ := exists_scalarWord hs
  rw [heq, List.cons_append]
  unfold value
  split
  all_goals
    first
      | rfl
      | (rename_i h; cases h; contradiction)

/-- The key of a field is read as it was written, and then the value behind it. -/
theorem fields_quoted {k : String} (hk : IsBasic k) (level : Nat) (done : Fields Value)
    (s : List Char) :
    fields (value level) done (quoted k ++ ':' :: ' ' :: s) = (do
      let (v, after) ← value level (skipSpaces s)
      match skipSpaces after with
      | '\x7d' :: rest => .ok (.mapping (done.set k v), rest)
      | ',' :: rest =>
        if (skipSpaces rest).length < (k.toList.flatMap escaped ++ '"' :: ':' :: ' ' :: s).length
        then fields (value level) (done.set k v) (skipSpaces rest)
        else .error .malformed
      | _ => .error .malformed) := by
  have hkey := quotedRest_escaped [] k.toList (':' :: ' ' :: s) hk
  rw [List.reverse_nil, List.nil_append, String.ofList_toList] at hkey
  rw [quoted, List.cons_append, List.append_assoc, List.cons_append, List.nil_append, fields]
  dsimp only
  rw [hkey]
  rfl

/-- A list is read item by item. -/
theorem value_list {vs : List Value} (hvs : ∀ v ∈ vs, IsPortable v) (hne : vs ≠ []) (level : Nat)
    (rest : List Char) :
    value (level + 1) ('[' :: (writtenItems vs ++ ']' :: rest))
      = items (value level) [] (writtenItems vs ++ ']' :: rest) := by
  obtain ⟨v, more, rfl⟩ := List.exists_cons_of_ne_nil hne
  obtain ⟨c, s, heq, -, hclose⟩ := exists_written (hvs v (by simp))
  have hskip : skipSpaces (writtenItems (v :: more) ++ ']' :: rest)
      = writtenItems (v :: more) ++ ']' :: rest := by
    rw [writtenItems, List.append_assoc, skipSpaces_written (hvs v (by simp))]
  rw [value, hskip]
  split
  · rename_i hbracket
    rw [writtenItems, heq] at hbracket
    cases hbracket
    exact absurd rfl hclose
  · rfl

/-- A mapping is read field by field. -/
theorem value_mapping {fs : List (String × Value)} (hne : fs ≠ []) (level : Nat) (rest : List Char) :
    value (level + 1) ('\x7b' :: (writtenFields fs ++ '\x7d' :: rest))
      = fields (value level) [] (writtenFields fs ++ '\x7d' :: rest) := by
  obtain ⟨e, more, rfl⟩ := List.exists_cons_of_ne_nil hne
  have hskip : skipSpaces (writtenFields (e :: more) ++ '\x7d' :: rest)
      = writtenFields (e :: more) ++ '\x7d' :: rest := rfl
  rw [value, hskip]
  split
  · rename_i hbrace
    cases hbrace
  · rfl

mutual

/-- **A value that was written is read back**, if its text is accepted. -/
theorem value_written : (v : Value) → IsPortable v → ∀ {level : Nat} {rest : List Char} {w rest'},
    IsStop rest → value level (written v ++ rest) = .ok (w, rest') →
      rest' = rest ∧ w = readBack v ∧ AllScalars HasFewDigits v
  | .scalar s, hv, level, rest, w, rest', hrest, h => by
      cases hv with
      | scalar hs =>
          rw [written, value_scalar hs] at h
          obtain ⟨hsame, hvalue, hfew⟩ := leaf_scalarWord hs hrest h
          exact ⟨hsame, hvalue, .scalar hfew⟩
  | .list vs, hv, level, rest, w, rest', hrest, h => by
      cases hv with
      | list hvs =>
          rw [written, List.cons_append, List.append_assoc, List.cons_append, List.nil_append] at h
          cases level with
          | zero => cases h
          | succ level =>
              cases vs with
              | nil =>
                  cases h
                  exact ⟨rfl, rfl, .list fun _ h => nomatch h⟩
              | cons v more =>
                  rw [value_list hvs (by simp)] at h
                  obtain ⟨hsame, hvalues, hfew⟩ := items_written (v :: more) (by simp) hvs h
                  exact ⟨hsame, by simp [hvalues, readBack], .list hfew⟩
  | .mapping fs, hv, level, rest, w, rest', hrest, h => by
      cases hv with
      | mapping hnodup hbasic hshort hvs =>
          rw [written, List.cons_append, List.append_assoc, List.cons_append, List.nil_append] at h
          cases level with
          | zero => cases h
          | succ level =>
              cases fs with
              | nil =>
                  cases h
                  exact ⟨rfl, rfl, .mapping fun _ h => nomatch h⟩
              | cons e more =>
                  rw [value_mapping (by simp)] at h
                  obtain ⟨hsame, hvalues, hfew⟩ :=
                    fields_written (e :: more) (by simp) hbasic hvs h
                  refine ⟨hsame, ?_, .mapping hfew⟩
                  rw [hvalues, readBack]
                  exact congrArg Value.mapping
                    (Fields.ofEntries_eq_self (by rwa [keys_readBackFields]))

theorem items_written : (vs : List Value) → vs ≠ [] → (∀ v ∈ vs, IsPortable v) →
    ∀ {level : Nat} {done : List Value} {rest : List Char} {w rest'},
    items (value level) done (writtenItems vs ++ ']' :: rest) = .ok (w, rest') →
      rest' = rest ∧ w = .list (done.reverse ++ readBackItems vs)
        ∧ ∀ v ∈ vs, AllScalars HasFewDigits v
  | [], hne, _, _, _, _, _, _, _ => absurd rfl hne
  | [v], _, hvs, level, done, rest, w, rest', h => by
      rw [items] at h
      obtain ⟨⟨v', after⟩, hvalue, h⟩ := except_bind_ok.mp h
      rw [writtenItems, moreItems, List.append_nil] at hvalue
      obtain ⟨rfl, rfl, hfew⟩ :=
        value_written v (hvs v (by simp)) (isStop_cons (by simp) rest) hvalue
      dsimp only at h
      rw [skipSpaces_of_not_isSpace (by decide)] at h
      cases h
      exact ⟨rfl, by simp [readBackItems], List.forall_mem_singleton.mpr hfew⟩
  | v :: second :: more, _, hvs, level, done, rest, w, rest', h => by
      obtain ⟨hv, hrest⟩ := List.forall_mem_cons.mp hvs
      rw [items] at h
      obtain ⟨⟨v', after⟩, hvalue, h⟩ := except_bind_ok.mp h
      rw [writtenItems, moreItems, List.append_assoc, List.cons_append, List.cons_append] at hvalue
      obtain ⟨rfl, rfl, hfew⟩ := value_written v hv (isStop_cons (by simp) _) hvalue
      dsimp only at h
      rw [skipSpaces_of_not_isSpace (by decide)] at h
      have hsecond : skipSpaces (' ' :: (written second ++ moreItems more ++ ']' :: rest))
          = writtenItems (second :: more) ++ ']' :: rest := by
        show skipSpaces (written second ++ moreItems more ++ ']' :: rest) = _
        rw [List.append_assoc, skipSpaces_written (hrest second (by simp)), writtenItems,
          List.append_assoc]
      simp only [hsecond] at h
      split at h
      · obtain ⟨hsame, hvalues, hmore⟩ := items_written (second :: more) (by simp) hrest h
        exact ⟨hsame, by simp [hvalues, readBackItems], List.forall_mem_cons.mpr ⟨hfew, hmore⟩⟩
      · cases h

theorem fields_written : (fs : List (String × Value)) → fs ≠ [] → (∀ e ∈ fs, IsBasic e.1) →
    (∀ e ∈ fs, IsPortable e.2) → ∀ {level : Nat} {done : Fields Value} {rest : List Char} {w rest'},
    fields (value level) done (writtenFields fs ++ '\x7d' :: rest) = .ok (w, rest') →
      rest' = rest ∧ w = .mapping (Fields.update done (readBackFields fs))
        ∧ ∀ e ∈ fs, AllScalars HasFewDigits e.2
  | [], hne, _, _, _, _, _, _, _, _ => absurd rfl hne
  | [(k, v)], _, hkeys, hvs, level, done, rest, w, rest', h => by
      have htext : writtenFields [(k, v)] ++ '\x7d' :: rest
          = quoted k ++ ':' :: ' ' :: (written v ++ '\x7d' :: rest) := by
        simp [writtenFields, moreFields]
      have hv := hvs (k, v) (by simp)
      rw [htext, fields_quoted (hkeys (k, v) (by simp)), skipSpaces_written hv] at h
      obtain ⟨⟨v', after⟩, hvalue, h⟩ := except_bind_ok.mp h
      obtain ⟨rfl, rfl, hfew⟩ := value_written v hv (isStop_cons (by simp) rest) hvalue
      dsimp only at h
      rw [skipSpaces_of_not_isSpace (by decide)] at h
      cases h
      exact ⟨rfl, rfl, List.forall_mem_singleton.mpr hfew⟩
  | (k, v) :: (second, v₂) :: more, _, hkeys, hvs, level, done, rest, w, rest', h => by
      have htext : writtenFields ((k, v) :: (second, v₂) :: more) ++ '\x7d' :: rest
          = quoted k ++ ':' :: ' ' :: (written v
            ++ ',' :: ' ' :: (writtenFields ((second, v₂) :: more) ++ '\x7d' :: rest)) := by
        simp [writtenFields, moreFields]
      obtain ⟨hv, hvs⟩ := List.forall_mem_cons.mp hvs
      obtain ⟨hk, hkeys⟩ := List.forall_mem_cons.mp hkeys
      rw [htext, fields_quoted hk, skipSpaces_written hv] at h
      obtain ⟨⟨v', after⟩, hvalue, h⟩ := except_bind_ok.mp h
      obtain ⟨rfl, rfl, hfew⟩ := value_written v hv (isStop_cons (by simp) _) hvalue
      dsimp only at h
      rw [skipSpaces_of_not_isSpace (by decide)] at h
      have hsecond : skipSpaces (' ' :: (writtenFields ((second, v₂) :: more) ++ '\x7d' :: rest))
          = writtenFields ((second, v₂) :: more) ++ '\x7d' :: rest := rfl
      simp only [hsecond] at h
      split at h
      · obtain ⟨hsame, hvalues, hmore⟩ :=
          fields_written ((second, v₂) :: more) (by simp) hkeys hvs h
        exact ⟨hsame, hvalues, List.forall_mem_cons.mpr ⟨hfew, hmore⟩⟩
      · cases h

end

/-- A text that was written is read as the value that it was written for. -/
theorem read_written {v w : Value} (hv : IsPortable v)
    (h : read (String.ofList (written v)) = .ok w) :
    w = readBack v ∧ AllScalars HasFewDigits v := by
  unfold read at h
  obtain ⟨⟨w', rest⟩, hvalue, h⟩ := except_bind_ok.mp h
  have hskip := skipSpaces_written hv []
  rw [List.append_nil] at hskip
  rw [String.toList_ofList, hskip, ← List.append_nil (written v)] at hvalue
  obtain ⟨rfl, rfl, hfew⟩ := value_written v hv isStop_nil hvalue
  cases h
  exact ⟨rfl, hfew⟩

end ApiClientGen.Json
