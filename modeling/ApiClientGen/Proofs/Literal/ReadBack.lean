/-
Literals of default values are read back.

Of the values of documents all have a literal but those that hold a date, a moment, a time of day,
bytes or a number that is not finite; only an integer with too many digits ends the writing.  Where
there is a literal, the value is read back from it: the numbers, the truth values and the texts are
told apart, and the fields of a mapping keep their order.
-/
import ApiClientGen.Client.Literal
import ApiClientGen.Proofs.Document.PlainValues
import ApiClientGen.Proofs.Literal.Reader
import ApiClientGen.Proofs.Source.SoundValues
import Mathlib.Data.List.Forall2

namespace ApiClientGen.Literal

open ApiClientGen.Client ApiClientGen.Document ApiClientGen.Number ApiClientGen.Reference
open ApiClientGen.Text
open ApiClientGen.Json (IsStop isStop_cons isStop_nil AllScalars isSpace skipSpaces)

/-! ### Values with a literal -/

/-- A scalar that has no literal. -/
def HasNoLiteral : Scalar → Prop
  | .float x => x.isFinite = false
  | .date _ | .moment _ | .clock _ | .bytes _ => True
  | _ => False

/-- An integer with more digits than are written. -/
def IsLongInteger : Scalar → Prop
  | .int i => isTooLong i = true
  | _ => False

/-- A scalar that has a literal. -/
def HasLiteral (s : Scalar) : Prop := ¬ HasNoLiteral s ∧ ¬ IsLongInteger s

/-- What an answer about literals says: one thing if there are some, another if there are none. -/
def Tells {α : Type} (present missing : Prop) : Option α → Prop
  | some _ => present
  | none => missing

theorem literal_scalar (s : Scalar) : literal (.scalar s) = scalarLiteral s := rfl

theorem scalarLiteral_int (i : Int) :
    scalarLiteral (.int i) = if isTooLong i then .error .tooManyDigits else .ok (some (toString i)) :=
  rfl

theorem scalarLiteral_float (x : Binary64) :
    scalarLiteral (.float x) = .ok (if x.isFinite then some x.text else none) := rfl

theorem scalarLiteral_ends (s : Scalar) :
    Ends (Tells (HasLiteral s) (HasNoLiteral s)) (fun _ => IsLongInteger s) (scalarLiteral s) := by
  cases s with
  | int i =>
      rw [scalarLiteral_int]
      cases hlong : isTooLong i with
      | true => exact hlong
      | false => exact ⟨id, fun h => Bool.false_ne_true (hlong.symm.trans h)⟩
  | float x =>
      rw [scalarLiteral_float]
      cases hfinite : x.isFinite with
      | true => exact ⟨fun h => Bool.false_ne_true (h.symm.trans hfinite), id⟩
      | false => exact hfinite
  | null | bool | string => exact ⟨id, id⟩
  | date | moment | clock | bytes => exact trivial

mutual

/-- A value has a literal if all its scalars have one. -/
theorem literal_ends : (v : Value) →
    Ends (Tells (AllScalars HasLiteral v) (Holds HasNoLiteral v)) (fun _ => Holds IsLongInteger v)
      (literal v)
  | .scalar s => by
      refine (scalarLiteral_ends s).mono (fun answer h => ?_) fun _ h => .scalar h
      cases answer with
      | some t => exact .scalar h
      | none => exact .scalar h
  | .list items => by
      refine ((itemLiterals_ends items).mono (fun _ => id) fun _ h => ?_).map fun answer h => ?_
      · obtain ⟨v, hv, hlong⟩ := h
        exact .list hv hlong
      · cases answer with
        | some ls => exact .list h
        | none =>
            obtain ⟨v, hv, hnone⟩ := h
            exact .list hv hnone
  | .mapping fields => by
      refine ((fieldLiterals_ends fields).mono (fun _ => id) fun _ h => ?_).map fun answer h => ?_
      · obtain ⟨e, he, hlong⟩ := h
        exact .mapping he hlong
      · cases answer with
        | some ls => exact .mapping h
        | none =>
            obtain ⟨e, he, hnone⟩ := h
            exact .mapping he hnone

theorem itemLiterals_ends : (items : List Value) →
    Ends (Tells (∀ v ∈ items, AllScalars HasLiteral v) (∃ v ∈ items, Holds HasNoLiteral v))
      (fun _ => ∃ v ∈ items, Holds IsLongInteger v) (itemLiterals (Deferred.ofItems items))
  | [] => nofun
  | v :: rest => by
      have hfirst := literal_ends v
      have hrest := itemLiterals_ends rest
      refine (hfirst.mono (fun _ => id) fun _ h => ⟨v, by simp, h⟩).bind fun l? hl => ?_
      refine (hrest.mono (fun _ => id) fun _ h => ?_).bind fun ls? hls => ?_
      · exact List.exists_mem_cons_of_exists h
      · cases l? with
        | none => exact ⟨v, by simp, hl⟩
        | some l =>
            cases ls? with
            | none => exact List.exists_mem_cons_of_exists hls
            | some ls => exact List.forall_mem_cons.mpr ⟨hl, hls⟩

theorem fieldLiterals_ends : (fields : List (String × Value)) →
    Ends (Tells (∀ e ∈ fields, AllScalars HasLiteral e.2) (∃ e ∈ fields, Holds HasNoLiteral e.2))
      (fun _ => ∃ e ∈ fields, Holds IsLongInteger e.2) (fieldLiterals (Deferred.ofFields fields))
  | [] => nofun
  | (k, v) :: rest => by
      have hfirst := literal_ends v
      have hrest := fieldLiterals_ends rest
      refine (hfirst.mono (fun _ => id) fun _ h => ⟨(k, v), by simp, h⟩).bind fun l? hl => ?_
      cases l? with
      | none => exact ⟨(k, v), by simp, hl⟩
      | some l =>
          refine (hrest.mono (fun _ => id) fun _ h => ?_).map fun ls? hls => ?_
          · exact List.exists_mem_cons_of_exists h
          · cases ls? with
            | none => exact List.exists_mem_cons_of_exists hls
            | some ls => exact List.forall_mem_cons.mpr ⟨hl, hls⟩

end

/-! ### Scalars are read back -/

/-- What is read as a number begins with a minus or a digit. -/
theorem exists_numberHead {s rest : List Char} {v : Value} (h : Json.number s = .ok (v, rest)) :
    ∃ c more, s = c :: more ∧ (c = '-' ∨ c.isDigit = true) := by
  cases s with
  | nil => cases h
  | cons c more =>
      refine ⟨c, more, rfl, ?_⟩
      by_contra hc
      rw [not_or, Bool.not_eq_true] at hc
      have hminus : Json.takeMinus (c :: more) = (false, c :: more) := by
        unfold Json.takeMinus
        split
        next heq => exact absurd (List.cons.inj heq).1 hc.1
        next => rfl
      have hwhole : Json.wholePart (c :: more) = ([], c :: more) := by
        unfold Json.wholePart
        split
        next heq =>
          rw [(List.cons.inj heq).1] at hc
          exact absurd hc.2 (by decide)
        next => simp [Json.leadingDigits, hc.2]
      unfold Json.number at h
      rw [hminus] at h
      dsimp only at h
      rw [hwhole] at h
      cases h

/-- A number is neither a text nor a word. -/
theorem leaf?_number {s rest : List Char} {v : Value} (h : Json.number s = .ok (v, rest)) :
    leaf? s = some (v, rest) := by
  obtain ⟨c, more, rfl, hc⟩ := exists_numberHead h
  have hother : ∀ {d}, ¬ (d = '-' ∨ d.isDigit = true) → c ≠ d := by
    rintro d hd rfl
    exact hd hc
  have hquotes : c ≠ '\'' ∧ c ≠ '"' := ⟨hother (by decide), hother (by decide)⟩
  have hletters : c ≠ 'N' ∧ c ≠ 'T' ∧ c ≠ 'F' :=
    ⟨hother (by decide), hother (by decide), hother (by decide)⟩
  have htext : text? (c :: more) = none := by
    rw [text?, if_neg (not_or.mpr hquotes)]
  have hconstant : constant? (c :: more) = none := by
    simp [constant?, constants, Json.afterWord?, Ne.symm, hletters]
  rw [leaf?, htext, hconstant, h]
  rfl

/-- The number of digits of an integer that is written. -/
theorem length_toDigits_of_not_isTooLong {i : Int} (h : isTooLong i = false) :
    (Nat.toDigits 10 i.natAbs).length ≤ digitLimit := by
  -- The power is left as it is: it is stated for every number of digits.
  have hall : ∀ limit n, 0 < limit → n < Nat.pow 10 limit → (Nat.toDigits 10 n).length ≤ limit :=
    fun limit n hpos => (Nat.length_toDigits_le_iff (by decide) hpos).mpr
  rw [isTooLong, exceedsDigits] at h
  exact hall digitLimit _ (by decide) (Nat.not_le.mp (of_decide_eq_false h))

/-- An integer is read back from its text. -/
theorem number_toString {i : Int} (h : isTooLong i = false) {rest : List Char}
    (hrest : IsStop rest) : Json.number ((toString i).toList ++ rest) = .ok (.int i, rest) := by
  have hdigits := areWhole_toDigits i.natAbs
  have hsigned : (if decide (i < 0) then -(i.natAbs : Int) else i.natAbs) = i := by
    simp only [decide_eq_true_eq]
    split <;> omega
  have hfew := length_toDigits_of_not_isTooLong h
  rw [toList_toString_int, Json.number_integer _ hdigits hrest, readInteger_signed _ hdigits,
    if_neg (Nat.not_lt.mpr hfew), digitsNumber_toDigits, hsigned]

/-- **The literal of a scalar** is read as the scalar. -/
theorem leaf?_scalarLiteral {s : Scalar} (hs : IsSoundScalar s) {text : String}
    (h : scalarLiteral s = .ok (some text)) {rest : List Char} (hrest : IsStop rest) :
    leaf? (text.toList ++ rest) = some (.scalar s, rest) := by
  cases s with
  | null =>
      cases h
      rfl
  | bool b =>
      cases b <;>
      · cases h
        rfl
  | int i =>
      rw [scalarLiteral_int] at h
      cases hlong : isTooLong i with
      | true =>
          rw [hlong] at h
          cases h
      | false =>
          rw [hlong] at h
          cases h
          exact leaf?_number (number_toString hlong hrest)
  | float x =>
      rw [scalarLiteral_float] at h
      cases hfinite : x.isFinite with
      | false =>
          rw [hfinite] at h
          cases h
      | true =>
          rw [hfinite] at h
          cases h
          exact leaf?_number (Json.number_text hfinite hs hrest)
  | string t =>
      cases h
      show leaf? ((quoted t).toList ++ rest) = _
      rw [leaf?, text?_quoted]
  | date | moment | clock | bytes => cases h

/-- The literal of a scalar is a text between quotes, or it is made of what words are made of. -/
theorem scalarLiteral_cases {s : Scalar} {text : String} (h : scalarLiteral s = .ok (some text)) :
    (∃ t, text = quoted t) ∨ ∀ c ∈ text.toList, isWordChar c = true := by
  cases s with
  | null =>
      cases h
      exact .inr (List.all_eq_true.mp (by decide))
  | bool b =>
      cases b <;>
      · cases h
        exact .inr (List.all_eq_true.mp (by decide))
  | int i =>
      rw [scalarLiteral_int] at h
      split at h
      · cases h
      · cases h
        rw [toList_toString_int]
        exact .inr (isWordChar_of_mem_signed _
          fun d hd => isWordChar_of_isDigit ((areDigits_toDigits _).digits d hd))
  | float x =>
      rw [scalarLiteral_float] at h
      split at h
      next hfinite =>
        cases h
        exact .inr (Binary64.isWordChar_of_mem_text hfinite)
      next => cases h
  | string t =>
      cases h
      exact .inl ⟨t, rfl⟩
  | date | moment | clock | bytes => cases h

/-- The text of a scalar is shown as it is. -/
theorem isPrintable_scalarLiteral {s : Scalar} {text : String}
    (h : scalarLiteral s = .ok (some text)) : ∀ c ∈ text.toList, isPrintable c = true := by
  rcases scalarLiteral_cases h with ⟨t, heq⟩ | hwords
  · rw [heq]
    exact isPrintable_quoted t
  · exact fun c hc => isPrintable_of_isWordChar (hwords c hc)

/-! ### Values are read back -/

/-- A character with which a part begins: no space and no closing bracket. -/
def IsFirst (c : Char) : Prop := isSpace c = false ∧ c ≠ ']' ∧ c ≠ '\x7d'

instance : DecidablePred IsFirst := fun c => inferInstanceAs (Decidable (isSpace c = false ∧ _))

/-- The text of a value is shown as it is, begins like a part, and is read as the value. -/
structure ReadsBack (v : Value) (text : String) : Prop where
  head : ∃ c more, text.toList = c :: more ∧ IsFirst c
  printable : ∀ c ∈ text.toList, isPrintable c = true
  value : ∀ {steps : Nat} {rest : List Char}, text.length ≤ steps → IsStop rest →
    value steps (text.toList ++ rest) = some (v, rest)

/-- Some texts with commas between them. -/
def joined (ls : List String) : List Char := (String.intercalate ", " ls).toList

theorem joined_singleton (l : String) : joined [l] = l.toList := by
  rw [joined, String.intercalate_singleton]

theorem joined_cons_cons (l m : String) (ls : List String) :
    joined (l :: m :: ls) = l.toList ++ ',' :: ' ' :: joined (m :: ls) := by
  rw [joined, String.intercalate_cons_cons, String.toList_append, String.toList_append,
    List.append_assoc]
  rfl

/-- What a leaf begins with is no space and no bracket. -/
theorem exists_leafHead {s rest : List Char} {v : Value} (h : leaf? s = some (v, rest)) :
    ∃ c more, s = c :: more ∧ IsFirst c ∧ c ≠ '[' ∧ c ≠ '\x7b' := by
  cases s with
  | nil => cases h
  | cons c more =>
      refine ⟨c, more, rfl, ?_⟩
      by_contra hc
      -- A space or a bracket begins neither a text nor a word nor a number.
      have hmem : c ∈ [' ', '\t', '\n', '\r', '[', ']', '\x7b', '\x7d'] := by
        simp only [IsFirst, isSpace, Bool.or_eq_false_iff, beq_eq_false_iff_ne] at hc
        simp only [List.mem_cons]
        tauto
      have hnumber : (Json.number (c :: more)).toOption = none := by
        cases hnumber : Json.number (c :: more) with
        | error fault => rfl
        | ok r =>
            obtain ⟨d, ds, heq, hd⟩ := exists_numberHead hnumber
            have hall : [' ', '\t', '\n', '\r', '[', ']', '\x7b', '\x7d'].all
                fun d => d != '-' && !d.isDigit := by decide
            rw [← (List.cons.inj heq).1] at hd
            have hc := List.all_eq_true.mp hall c hmem
            simp only [Bool.and_eq_true, bne_iff_ne, Bool.not_eq_true'] at hc
            exact absurd hd (not_or.mpr ⟨hc.1, by simp [hc.2]⟩)
      have hleaf : leaf? (c :: more) = (Json.number (c :: more)).toOption := by
        simp only [List.mem_cons, List.not_mem_nil, or_false] at hmem
        rcases hmem with rfl | rfl | rfl | rfl | rfl | rfl | rfl | rfl <;> rfl
      rw [hleaf, hnumber] at h
      cases h

theorem value_leaf {s rest : List Char} {v : Value} (h : leaf? s = some (v, rest)) (steps : Nat) :
    value (steps + 1) s = some (v, rest) := by
  obtain ⟨c, more, rfl, -, hlist, hmapping⟩ := exists_leafHead h
  rw [value, h] <;> simp [hlist, hmapping]

/-- A list is read item by item, if it has any. -/
theorem value_list {c : Char} (hc : c ≠ ']') (steps : Nat) (s : List Char) :
    value (steps + 1) ('[' :: c :: s)
      = (parts ']' (value steps) steps (c :: s)).map fun (vs, behind) => (.list vs, behind) := by
  rw [value]
  simp [hc]

/-- A mapping is read field by field, if it has any. -/
theorem value_mapping {c : Char} (hc : c ≠ '\x7d') (steps : Nat) (s : List Char) :
    value (steps + 1) ('\x7b' :: c :: s)
      = (parts '\x7d' (field (value steps)) steps (c :: s)).map fun (fs, behind) =>
          (.mapping (Fields.ofEntries fs), behind) := by
  rw [value]
  simp [hc]

/-- The text of a part is shown as it is, and if it is not too long it is read as the part. -/
structure IsPart {α : Type} (part : List Char → Option (α × List Char)) (limit : Nat) (a : α)
    (l : String) : Prop where
  head : ∃ c more, l.toList = c :: more ∧ IsFirst c
  printable : ∀ c ∈ l.toList, isPrintable c = true
  read : ∀ {tail : List Char}, l.length ≤ limit → IsStop tail →
    part (l.toList ++ tail) = some (a, tail)

theorem IsPart.exists_joined {α : Type} {part : List Char → Option (α × List Char)} {limit : Nat}
    {a : α} {l : String} (h : IsPart part limit a l) (ls : List String) :
    ∃ c more, joined (l :: ls) = c :: more ∧ IsFirst c := by
  obtain ⟨c, more, hl, hc⟩ := h.head
  cases ls with
  | nil => exact ⟨c, more, by rw [joined_singleton, hl], hc⟩
  | cons m ls => exact ⟨c, _, by rw [joined_cons_cons, hl, List.cons_append], hc⟩

/-- Behind a comma and a space the next part follows. -/
theorem IsPart.skipSpaces {α : Type} {part : List Char → Option (α × List Char)} {limit : Nat} {a : α}
    {l : String} (h : IsPart part limit a l) (ls : List String) (rest : List Char) :
    skipSpaces (' ' :: (joined (l :: ls) ++ rest)) = joined (l :: ls) ++ rest := by
  obtain ⟨c, more, hjoined, hc⟩ := h.exists_joined ls
  rw [hjoined]
  exact Json.skipSpaces_of_not_isSpace hc.1 _

theorem isPrintable_joined {α : Type} {part : List Char → Option (α × List Char)} {limit : Nat}
    {as : List α} {ls : List String} (h : List.Forall₂ (IsPart part limit) as ls) :
    ∀ c ∈ joined ls, isPrintable c = true := by
  induction h with
  | nil => exact nofun
  | @cons a l as ls ha has ih =>
      cases ls with
      | nil =>
          rw [joined_singleton]
          exact ha.printable
      | cons m ls =>
          rw [joined_cons_cons]
          simp only [List.forall_mem_append, List.forall_mem_cons]
          exact ⟨ha.printable, by decide, by decide, ih⟩

/-- **Parts with commas between them** are read one by one. -/
theorem parts_joined {α : Type} {part : List Char → Option (α × List Char)} {limit : Nat}
    {close : Char} (hclose : close = ']' ∨ close = '\x7d') {as : List α} {ls : List String}
    (h : List.Forall₂ (IsPart part limit) as ls) (hne : as ≠ [])
    (hlimit : (joined ls).length ≤ limit) {steps : Nat} (hsteps : (joined ls).length < steps)
    (rest : List Char) : parts close part steps (joined ls ++ close :: rest) = some (as, rest) := by
  induction h generalizing steps with
  | nil => exact absurd rfl hne
  | @cons a l as ls ha has ih =>
      obtain ⟨steps, rfl⟩ := Nat.exists_eq_succ_of_ne_zero (Nat.ne_zero_of_lt hsteps)
      cases has with
      | nil =>
          rw [joined_singleton, String.length_toList] at hlimit
          rw [joined_singleton, parts, ha.read hlimit (isStop_cons (.inr hclose) rest)]
          exact if_pos rfl
      | @cons b m as ls hb has =>
          have hcomma : ',' ≠ close := by
            obtain rfl | rfl := hclose <;> decide
          have hlength : (joined (l :: m :: ls)).length = l.length + (joined (m :: ls)).length + 2 := by
            rw [joined_cons_cons, List.length_append, String.length_toList, List.length_cons,
              List.length_cons]
            rfl
          have hread := ha.read (by omega : l.length ≤ limit)
            (isStop_cons (.inl rfl) (' ' :: (joined (m :: ls) ++ close :: rest)))
          rw [joined_cons_cons, List.append_assoc, List.cons_append, List.cons_append, parts, hread]
          dsimp only
          rw [if_neg hcomma, if_pos rfl, hb.skipSpaces,
            ih (List.cons_ne_nil b as) (by omega) (by omega)]
          rfl

theorem ReadsBack.isPart {v : Value} {l : String} (h : ReadsBack v l) (steps : Nat) :
    IsPart (Literal.value steps) steps v l where
  head := h.head
  printable := h.printable
  read := fun hlength htail => h.value hlength htail

/-- The text of a field is that of its key and that of its value. -/
def FieldReadsBack (e : String × Value) (l : String) : Prop :=
  ∃ text, ReadsBack e.2 text ∧ l.toList = (quoted e.1).toList ++ ':' :: ' ' :: text.toList

theorem FieldReadsBack.isPart {e : String × Value} {l : String} (h : FieldReadsBack e l)
    (steps : Nat) : IsPart (field (Literal.value steps)) steps e l where
  head := by
    obtain ⟨text, -, hl⟩ := h
    rw [quoted, String.toList_ofList] at hl
    refine ⟨_, _, hl, ?_⟩
    rcases quoteFor_eq e.1.toList with heq | heq
    · rw [heq]
      decide
    · rw [heq]
      decide
  printable := by
    obtain ⟨text, hv, hl⟩ := h
    rw [hl]
    simp only [List.forall_mem_append, List.forall_mem_cons]
    exact ⟨isPrintable_quoted e.1, by decide, by decide, hv.printable⟩
  read := by
    intro tail hlength htail
    obtain ⟨text, hv, hl⟩ := h
    obtain ⟨c, more, hhead, hfirst⟩ := hv.head
    have htext : text.length ≤ steps := by
      rw [← String.length_toList, hl, List.length_append, List.length_cons, List.length_cons,
        String.length_toList, String.length_toList] at hlength
      omega
    have hskip : skipSpaces (' ' :: (text.toList ++ tail)) = text.toList ++ tail := by
      rw [hhead, List.cons_append]
      exact Json.skipSpaces_of_not_isSpace hfirst.1 _
    rw [hl, List.append_assoc, List.cons_append, List.cons_append, field, text?_quoted]
    dsimp only
    rw [if_pos rfl, hskip, hv.value htext htail]
    rfl

/-! ### Literals of lists and mappings -/

/-- If the items of a list have literals, each of them has its own. -/
theorem forall₂_itemLiterals {items : List (Unit → Deferred)} {ls : List String}
    (h : itemLiterals items = .ok (some ls)) :
    List.Forall₂ (fun d l => deferredLiteral (d ()) = .ok (some l)) items ls := by
  induction items generalizing ls with
  | nil =>
      cases h
      exact .nil
  | cons d rest ih =>
      obtain ⟨l?, hl, h⟩ := except_bind_ok.mp h
      obtain ⟨ls?, hls, h⟩ := except_bind_ok.mp h
      cases l? with
      | none => cases h
      | some l =>
          cases ls? with
          | none => cases h
          | some ls =>
              cases h
              exact .cons hl (ih hls)

/-- If the fields of a mapping have literals, each has that of its key and that of its value. -/
theorem forall₂_fieldLiterals {fields : List (String × (Unit → Deferred))} {ls : List String}
    (h : fieldLiterals fields = .ok (some ls)) :
    List.Forall₂
      (fun e l => ∃ text, deferredLiteral (e.2 ()) = .ok (some text) ∧ l = quoted e.1 ++ ": " ++ text)
      fields ls := by
  induction fields generalizing ls with
  | nil =>
      cases h
      exact .nil
  | cons e rest ih =>
      obtain ⟨k, d⟩ := e
      obtain ⟨l?, hl, h⟩ := except_bind_ok.mp h
      cases l? with
      | none => cases h
      | some l =>
          obtain ⟨ls?, hls, h⟩ := except_bind_ok.mp h
          cases ls? with
          | none => cases h
          | some ls =>
              cases h
              exact .cons ⟨l, hl, rfl⟩ (ih hls)

theorem ofItems_eq_map (items : List Value) :
    Deferred.ofItems items = items.map fun v _ => Deferred.ofValue v := by
  induction items with
  | nil => rfl
  | cons v rest ih => rw [Deferred.ofItems, ih, List.map_cons]

theorem ofFields_eq_map (fields : List (String × Value)) :
    Deferred.ofFields fields = fields.map fun e => (e.1, fun _ => Deferred.ofValue e.2) := by
  induction fields with
  | nil => rfl
  | cons e rest ih => rw [Deferred.ofFields, ih, List.map_cons]

/-- The literals between brackets. -/
theorem exists_parts {x : Except LiteralFault (Option (List String))} {before behind text : String}
    (h : (do return (← x).map fun ls => before ++ String.intercalate ", " ls ++ behind)
      = .ok (some text)) :
    ∃ ls, x = .ok (some ls) ∧ text.toList = before.toList ++ (joined ls ++ behind.toList) := by
  obtain ⟨ls?, hx, h⟩ := except_bind_ok.mp h
  cases ls? with
  | none => cases h
  | some ls =>
      cases h
      exact ⟨ls, hx, by simp [joined]⟩

/-- The text between brackets of some parts is read as the value that is made of them. -/
theorem readsBack_of_parts {α : Type} (whole : List α → Value) {first close : Char}
    (hbrackets : (first, close) ∈ [('[', ']'), ('\x7b', '\x7d')])
    {part : Nat → List Char → Option (α × List Char)}
    (hempty : ∀ steps rest, value (steps + 1) (first :: close :: rest) = some (whole [], rest))
    (hparts : ∀ {c}, IsFirst c → ∀ steps s, value (steps + 1) (first :: c :: s)
      = (parts close (part steps) steps (c :: s)).map fun (as, behind) => (whole as, behind))
    {as : List α} {ls : List String} (h : ∀ steps, List.Forall₂ (IsPart (part steps) steps) as ls)
    {text : String} (htext : text.toList = first :: (joined ls ++ [close])) :
    ReadsBack (whole as) text where
  head := by
    have hall : ∀ b ∈ [('[', ']'), ('\x7b', '\x7d')], IsFirst b.1 := by decide
    exact ⟨first, _, htext, hall _ hbrackets⟩
  printable := by
    have hall : ∀ b ∈ [('[', ']'), ('\x7b', '\x7d')],
        isPrintable b.1 = true ∧ isPrintable b.2 = true := by decide
    obtain ⟨hfirst, hclose⟩ := hall _ hbrackets
    rw [htext]
    simp only [List.forall_mem_append, List.forall_mem_cons]
    exact ⟨hfirst, isPrintable_joined (h 0), hclose, nofun⟩
  value := by
    intro steps rest hlength _
    have hclose : close = ']' ∨ close = '\x7d' := by
      have hall : ∀ b ∈ [('[', ']'), ('\x7b', '\x7d')], b.2 = ']' ∨ b.2 = '\x7d' := by decide
      exact hall _ hbrackets
    rw [← String.length_toList, htext, List.length_cons, List.length_append,
      List.length_singleton] at hlength
    obtain ⟨steps, rfl⟩ := Nat.exists_eq_succ_of_ne_zero (by omega : steps ≠ 0)
    rw [htext, List.cons_append, List.append_assoc, List.singleton_append]
    have hall := h steps
    cases hall with
    | nil => exact hempty steps rest
    | @cons a l as ls ha has =>
        have hread := parts_joined hclose (.cons ha has) (List.cons_ne_nil a as) (by omega)
          (by omega : _ < steps) rest
        obtain ⟨c, more, hjoined, hc⟩ := ha.exists_joined ls
        rw [hjoined, List.cons_append] at hread ⊢
        rw [hparts hc, hread]
        rfl

/-- **The literal of a value** is read as the value. -/
theorem readsBack_literal {v : Value} (hv : IsSound v) :
    ∀ {text}, literal v = .ok (some text) → ReadsBack v text := by
  induction hv with
  | @scalar s hs =>
      intro text h
      obtain ⟨c, more, htext, hfirst, -⟩ := exists_leafHead (leaf?_scalarLiteral hs h isStop_nil)
      rw [List.append_nil] at htext
      refine ⟨⟨c, more, htext, hfirst⟩, isPrintable_scalarLiteral h, fun {steps rest} hlength hrest => ?_⟩
      have hpos : steps ≠ 0 := by
        rw [← String.length_toList, htext, List.length_cons] at hlength
        omega
      obtain ⟨steps, rfl⟩ := Nat.exists_eq_succ_of_ne_zero hpos
      exact value_leaf (leaf?_scalarLiteral hs h hrest) steps
  | @list items _ ih =>
      intro text h
      obtain ⟨ls, hls, htext⟩ := exists_parts h
      have hliterals := forall₂_itemLiterals hls
      rw [ofItems_eq_map, List.forall₂_map_left_iff] at hliterals
      have hreads : List.Forall₂ ReadsBack items ls :=
        ((List.forall₂_and_left _ _).mpr ⟨@ih, hliterals⟩).imp fun _ _ h => h.1 h.2
      exact readsBack_of_parts .list (by decide) (fun _ _ => rfl)
        (fun hc => value_list hc.2.1) (fun steps => hreads.imp fun _ _ h => h.isPart steps) htext
  | @mapping fields hkeys _ ih =>
      intro text h
      obtain ⟨ls, hls, htext⟩ := exists_parts h
      have hliterals := forall₂_fieldLiterals hls
      rw [ofFields_eq_map, List.forall₂_map_left_iff] at hliterals
      have hreads : List.Forall₂ FieldReadsBack fields ls := by
        refine ((List.forall₂_and_left _ _).mpr ⟨@ih, hliterals⟩).imp ?_
        rintro e l ⟨hread, text, htext, rfl⟩
        exact ⟨text, hread htext, by simp⟩
      rw [← Fields.ofEntries_eq_self hkeys]
      exact readsBack_of_parts (fun fs => .mapping (Fields.ofEntries fs)) (by decide)
        (fun _ _ => rfl) (fun hc => value_mapping hc.2.2)
        (fun steps => hreads.imp fun _ _ h => h.isPart steps) htext

/-- What holds a scalar of one kind has not only scalars of another one. -/
theorem not_allScalars {P Q : Scalar → Prop} {v : Value} (h : Holds P v)
    (hPQ : ∀ s, P s → ¬ Q s) : ¬ AllScalars Q v := by
  induction h with
  | scalar h => exact fun hall => hPQ _ h (by cases hall with | scalar hs => exact hs)
  | list hv _ ih => exact fun hall => ih (by cases hall with | list hs => exact hs _ hv)
  | mapping he _ ih => exact fun hall => ih (by cases hall with | mapping hs => exact hs _ he)

/-- A value has a literal if and only if all its scalars have one. -/
theorem exists_literal_iff {v : Value} :
    (∃ text, literal v = .ok (some text)) ↔ AllScalars HasLiteral v := by
  have hends := literal_ends v
  refine ⟨fun ⟨text, h⟩ => hends.of_ok h, fun hall => ?_⟩
  cases h : literal v with
  | error fault =>
      exact absurd hall (not_allScalars (hends.of_error h) fun s hs hliteral => hliteral.2 hs)
  | ok answer =>
      cases answer with
      | none => exact absurd hall (not_allScalars (hends.of_ok h) fun s hs hliteral => hliteral.1 hs)
      | some text => exact ⟨text, rfl⟩

/-- Without integers that are too long, a value has no literal if one of its scalars has none. -/
theorem literal_eq_none_iff {v : Value} (hlong : ¬ Holds IsLongInteger v) :
    literal v = .ok none ↔ Holds HasNoLiteral v := by
  have hends := literal_ends v
  refine ⟨hends.of_ok, fun hnone => ?_⟩
  cases h : literal v with
  | error fault => exact absurd (hends.of_error h) hlong
  | ok answer =>
      cases answer with
      | none => rfl
      | some text =>
          exact absurd (hends.of_ok h) (not_allScalars hnone fun s hs hliteral => hliteral.1 hs)

theorem read?_literal {v : Value} (hv : IsSound v) {text : String}
    (h : literal v = .ok (some text)) : read? text = some v := by
  have hread := (readsBack_literal hv h).value (Nat.le_succ text.length) isStop_nil
  rw [List.append_nil] at hread
  rw [read?, hread]

/--
**Literals are read back.**  A value has a literal if and only if all its scalars have one, and the
value is read back from it, which is a single line without tabs.  A value without integers that are
too long has none if and only if it holds a scalar without one, and the writing ends only at an
integer that is too long.
-/
theorem literal_reads_back {v : Value} (hv : IsSound v) :
    (¬ Holds IsLongInteger v → (literal v = .ok none ↔ Holds HasNoLiteral v))
      ∧ (∀ fault, literal v = .error fault → Holds IsLongInteger v)
      ∧ ((∃ text, literal v = .ok (some text)) ↔ AllScalars HasLiteral v)
      ∧ ∀ text, literal v = .ok (some text) →
          read? text = some v ∧ ∀ c ∈ text.toList, isLineEnd c = false ∧ c ≠ '\t' := by
  refine ⟨literal_eq_none_iff, fun fault h => (literal_ends v).of_error h, exists_literal_iff,
    fun text h => ⟨read?_literal hv h, fun c hc => ?_⟩⟩
  obtain ⟨hend, htab, -⟩ :=
    not_isLineEnd_of_isPrintable ((readsBack_literal hv h).printable c hc)
  exact ⟨hend, htab⟩

/-- A mapping with a list and with texts that hold quotes, a tab and a line break. -/
def nestedValue : Value :=
  .mapping [("it's", .list [.scalar (.float (.ofDecimal true 15 (-1))), .int (-3), .bool true, .null]),
    ("", .string "a \"b\"\t'c'\n")]

/-- The literal of that mapping. -/
def nestedText : String :=
  "\x7b\"it's\": [-1.5, -3, True, None], '': 'a \"b\"\\t\\'c\\'\\n'\x7d"

theorem literal_reads_back_nested :
    IsSound nestedValue
      ∧ literal nestedValue = .ok (some nestedText)
      ∧ read? nestedText = some nestedValue := by
  have hsound : IsSound nestedValue := by
    refine .mapping (by decide) (List.forall_mem_cons.mpr ⟨.list ?_, ?_⟩)
    · simp only [List.forall_mem_cons]
      exact ⟨.scalar (Binary64.isNumber_ofDecimal ..), .scalar trivial, .scalar trivial, .scalar trivial,
        nofun⟩
    · exact List.forall_mem_singleton.mpr (.scalar trivial)
  have htext : literal nestedValue = .ok (some nestedText) := by decide +kernel
  exact ⟨hsound, htext, ((literal_reads_back hsound).2.2.2 _ htext).1⟩

/-- An integer of one digit more than are written has no literal, and yet no part of it is without. -/
theorem literal_longInteger :
    IsSound (.int (Int.ofNat (Nat.pow 10 digitLimit)))
      ∧ ¬ Holds HasNoLiteral (.int (Int.ofNat (Nat.pow 10 digitLimit)))
      ∧ literal (.int (Int.ofNat (Nat.pow 10 digitLimit))) = .error .tooManyDigits := by
  have hlong : ∀ limit, (Nat.pow 10 limit ≤ (Int.ofNat (Nat.pow 10 limit)).natAbs : Bool) = true :=
    fun limit => decide_eq_true (Nat.le_refl _)
  refine ⟨.scalar trivial, fun h => by cases h with | scalar h => exact h, ?_⟩
  refine (literal_scalar _).trans ?_
  rw [scalarLiteral_int, isTooLong, exceedsDigits, hlong]
  rfl

end ApiClientGen.Literal
