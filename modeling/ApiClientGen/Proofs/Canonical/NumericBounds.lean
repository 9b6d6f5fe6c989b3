/-
Bounds of numbers.

A schema of version 3.1 may bound a number twice at each end, by a bound that the number may reach
and by one that it must not.  In the canonical form an end has one bound, and a flag that says that
it must not be reached.  What must not be reached is written over what may be, so that the bound
that may be reached is lost where both are given.  No number is shut out by that, but some are let
in, unless the bound that is left is the narrower one or there are no numbers between the ends.
-/
import ApiClientGen.Proofs.Canonical.NormalForm
import Mathlib.Algebra.Order.Field.Rat
import Mathlib.Algebra.Order.Field.Basic

namespace ApiClientGen.Canonical

open ApiClientGen.Document ApiClientGen.Number

variable {schema : Fields Value} {x : ℚ}

/-! ### Ends of a range -/

/-- An end of a range of numbers. -/
inductive RangeEnd where
  | lower
  | upper
  deriving DecidableEq, Repr

namespace RangeEnd

/-- The key of the bound that may be reached. -/
def bound : RangeEnd → String
  | lower => "minimum"
  | upper => "maximum"

/-- The key of the bound that must not be reached, or of the flag that says so. -/
def exclusive : RangeEnd → String
  | lower => "exclusiveMinimum"
  | upper => "exclusiveMaximum"

/-- A number as it is seen from an end: from the upper one the numbers run downwards. -/
def seen : RangeEnd → ℚ → ℚ
  | lower, q => q
  | upper, q => -q

variable {e f : RangeEnd} {a b : ℚ}

theorem exists_seen (e : RangeEnd) (q : ℚ) : ∃ y, e.seen y = q := by
  cases e with
  | lower => exact ⟨q, rfl⟩
  | upper => exact ⟨-q, neg_neg q⟩

/-- Numbers in order from one end are in order from the other end the other way round. -/
theorem seen_le_of_ne (hne : f ≠ e) (h : e.seen a ≤ e.seen b) : f.seen b ≤ f.seen a := by
  cases e with
  | lower =>
      cases f with
      | lower => exact absurd rfl hne
      | upper => exact neg_le_neg h
  | upper =>
      cases f with
      | lower => exact neg_le_neg_iff.mp h
      | upper => exact absurd rfl hne

end RangeEnd

/-! ### Bounds of a schema -/

/-- The number that a value is, if it is a finite one. -/
def number? : Value → Option ℚ
  | .scalar (.int i) => some i
  | .scalar (.float (.finite negative units)) =>
    some (Binary64.signedUnits negative units / Binary64.unitsPerOne)
  | _ => none

theorem isNumber_of_number? {v : Value} {q : ℚ} (h : number? v = some q) : isNumber v = true := by
  unfold number? at h
  split at h
  · rfl
  · rfl
  · cases h

/-- The number under a key of a schema. -/
def numberAt (schema : Fields Value) (key : String) : Option ℚ :=
  (Fields.get? schema key).bind number?

/-- What a schema has for bounds are finite numbers. -/
def HasFiniteBounds (schema : Fields Value) : Prop :=
  ∀ e : RangeEnd, ∀ key ∈ [e.bound, e.exclusive], ∀ v ∈ Fields.get? schema key,
    (number? v).isSome = true

namespace RangeEnd

variable {e : RangeEnd}

/-- A number keeps to both bounds of an end. -/
def Admits (e : RangeEnd) (schema : Fields Value) (x : ℚ) : Prop :=
  (∀ b, numberAt schema e.bound = some b → e.seen b ≤ e.seen x)
    ∧ ∀ c, numberAt schema e.exclusive = some c → e.seen c < e.seen x

/-- A number keeps to the only bound of an end, and does not reach it where the flag is set. -/
def AdmitsFlagged (e : RangeEnd) (schema : Fields Value) (x : ℚ) : Prop :=
  ∀ b, numberAt schema e.bound = some b →
    if Fields.get? schema e.exclusive = some (.bool true) then e.seen b < e.seen x
    else e.seen b ≤ e.seen x

/-- Of two bounds at an end the one that must not be reached is the narrower one. -/
def IsNarrowed (e : RangeEnd) (schema : Fields Value) : Prop :=
  ∀ b c, numberAt schema e.bound = some b → numberAt schema e.exclusive = some c →
    e.seen b ≤ e.seen c

end RangeEnd

/-- A number is between the ends of a schema of version 3.1. -/
def IsBetween (schema : Fields Value) (x : ℚ) : Prop := ∀ e : RangeEnd, e.Admits schema x

/-- A number is between the ends of a schema in canonical form. -/
def IsBetweenFlagged (schema : Fields Value) (x : ℚ) : Prop :=
  ∀ e : RangeEnd, e.AdmitsFlagged schema x

/-! ### One end -/

/-- A number under the key of the bound that must not be reached takes the place of the other one. -/
theorem downgradeBound_of_number {exclusive bound : String} (hne : exclusive ≠ bound) {v : Value}
    (hv : Fields.get? schema exclusive = some v) (hnumber : isNumber v = true) :
    Fields.get? (downgradeBound exclusive bound schema) bound = some v
      ∧ Fields.get? (downgradeBound exclusive bound schema) exclusive = some (.bool true) := by
  have hwritten : downgradeBound exclusive bound schema
      = Fields.set (Fields.set schema bound v) exclusive (.bool true) := by
    unfold downgradeBound
    rw [hv]
    exact if_pos hnumber
  rw [hwritten, Fields.get?_set_self, Fields.get?_set_of_ne _ _ hne, Fields.get?_set_self]
  exact ⟨rfl, rfl⟩

/-- At an end nothing else is done than that. -/
theorem exists_get?_downgradeSchema (e : RangeEnd) (schema : Fields Value) :
    ∃ before, ∀ key ∈ [e.bound, e.exclusive], Fields.get? before key = Fields.get? schema key
      ∧ Fields.get? (downgradeSchema schema) key
        = Fields.get? (downgradeBound e.exclusive e.bound before) key := by
  have hbefore : ∀ key ∈ ["minimum", "exclusiveMinimum", "maximum", "exclusiveMaximum"],
      Fields.get? (downgradeExamples (downgradeConst (downgradeType schema))) key
        = Fields.get? schema key := by
    intro key hkey
    have hother : ∀ k ∈ ["minimum", "exclusiveMinimum", "maximum", "exclusiveMaximum"],
        k ∉ ["examples", "example"] ∧ k ∉ ["const", "enum"] ∧ k ∉ ["type", "nullable", "anyOf"] := by
      decide
    obtain ⟨hexamples, hconst, htype⟩ := hother key hkey
    rw [get?_downgradeExamples hexamples, get?_downgradeConst hconst, get?_downgradeType htype]
  unfold downgradeSchema
  cases e with
  | lower =>
      refine ⟨_, fun key hkey => ⟨hbefore key (List.mem_append_left _ hkey), ?_⟩⟩
      have hother : ∀ k ∈ ["minimum", "exclusiveMinimum"], k ∉ ["exclusiveMaximum", "maximum"] := by
        decide
      exact get?_downgradeBound (hother key hkey)
  | upper =>
      refine ⟨_, fun key hkey => ⟨?_, rfl⟩⟩
      have hother : ∀ k ∈ ["maximum", "exclusiveMaximum"], k ∉ ["exclusiveMinimum", "minimum"] := by
        decide
      rw [get?_downgradeBound (hother key hkey)]
      exact hbefore key (List.mem_append_right ["minimum", "exclusiveMinimum"] hkey)

/-- **An end in canonical form** has the bound that must not be reached and the flag, if there is one. -/
theorem bounds_downgradeSchema (h : HasFiniteBounds schema) (e : RangeEnd) :
    (∃ c, numberAt schema e.exclusive = some c ∧ numberAt (downgradeSchema schema) e.bound = some c
        ∧ Fields.get? (downgradeSchema schema) e.exclusive = some (.bool true))
      ∨ numberAt schema e.exclusive = none
        ∧ numberAt (downgradeSchema schema) e.bound = numberAt schema e.bound
        ∧ Fields.get? (downgradeSchema schema) e.exclusive = none := by
  obtain ⟨before, hbefore⟩ := exists_get?_downgradeSchema e schema
  obtain ⟨hboundBefore, hbound⟩ := hbefore e.bound (by simp)
  obtain ⟨hexclusiveBefore, hexclusive⟩ := hbefore e.exclusive (by simp)
  have hne : e.exclusive ≠ e.bound := by cases e <;> decide
  cases hv : Fields.get? schema e.exclusive with
  | none =>
      have hsame : downgradeBound e.exclusive e.bound before = before := by
        unfold downgradeBound
        rw [hexclusiveBefore, hv]
      rw [hsame] at hbound hexclusive
      refine .inr ⟨by rw [numberAt, hv]; rfl, ?_, by rw [hexclusive, hexclusiveBefore, hv]⟩
      rw [numberAt, hbound, hboundBefore, numberAt]
  | some v =>
      obtain ⟨c, hc⟩ := Option.isSome_iff_exists.mp (h e e.exclusive (by simp) v hv)
      obtain ⟨hwritten, hflag⟩ := downgradeBound_of_number hne (hexclusiveBefore.trans hv)
        (isNumber_of_number? hc)
      refine .inl ⟨c, by rw [numberAt, hv]; exact hc, ?_, by rw [hexclusive, hflag]⟩
      rw [numberAt, hbound, hwritten]
      exact hc

namespace RangeEnd

variable {e : RangeEnd}

/-- What a number keeps to at an end in canonical form. -/
theorem admitsFlagged_downgradeSchema_iff (h : HasFiniteBounds schema) :
    e.AdmitsFlagged (downgradeSchema schema) x
      ↔ (∀ c, numberAt schema e.exclusive = some c → e.seen c < e.seen x)
        ∧ (numberAt schema e.exclusive = none →
          ∀ b, numberAt schema e.bound = some b → e.seen b ≤ e.seen x) := by
  unfold AdmitsFlagged
  rcases bounds_downgradeSchema h e with ⟨c, hc, hbound, hflag⟩ | ⟨hnone, hbound, hflag⟩
  · simp [hc, hbound, hflag]
  · simp [hnone, hbound, hflag]

/-- What keeps to both bounds of an end keeps to the one that is left. -/
theorem Admits.flagged (h : HasFiniteBounds schema) (hx : e.Admits schema x) :
    e.AdmitsFlagged (downgradeSchema schema) x :=
  (admitsFlagged_downgradeSchema_iff h).mpr ⟨hx.2, fun _ => hx.1⟩

/-- Where the bound that is left is the narrower one, nothing is let in. -/
theorem IsNarrowed.admits (h : HasFiniteBounds schema) (hnarrowed : e.IsNarrowed schema)
    (hx : e.AdmitsFlagged (downgradeSchema schema) x) : e.Admits schema x := by
  obtain ⟨hexclusive, honly⟩ := (admitsFlagged_downgradeSchema_iff h).mp hx
  refine ⟨fun b hb => ?_, hexclusive⟩
  cases hc : numberAt schema e.exclusive with
  | none => exact honly hc b hb
  | some c => exact (hnarrowed b c hb hc).trans (hexclusive c hc).le

/-- At an end where a number is let in, so is all that lies further inside. -/
theorem AdmitsFlagged.mono {y : ℚ} (hx : e.AdmitsFlagged schema x) (hxy : e.seen x ≤ e.seen y) :
    e.AdmitsFlagged schema y := by
  intro b hb
  have hle := hx b hb
  split at hle
  · rename_i hflag
    rw [if_pos hflag]
    exact hle.trans_le hxy
  · rename_i hflag
    rw [if_neg hflag]
    exact hle.trans hxy

/-- Where the bound that is lost is the narrower one, and a number is let in, another one is let in
that does not keep to it. -/
theorem exists_between_of_not_isNarrowed (h : HasFiniteBounds schema)
    (hnarrowed : ¬ e.IsNarrowed schema) (hx : IsBetweenFlagged (downgradeSchema schema) x) :
    ∃ y, IsBetweenFlagged (downgradeSchema schema) y ∧ ¬ IsBetween schema y := by
  simp only [IsNarrowed, not_forall, not_le] at hnarrowed
  obtain ⟨b, c, hb, hc, hlt⟩ := hnarrowed
  have hinside := ((admitsFlagged_downgradeSchema_iff h).mp (hx e)).1 c hc
  -- Between the bound that is left and both the lost one and the number there is room.
  obtain ⟨q, hcq, hq⟩ := exists_between (lt_min hlt hinside)
  obtain ⟨hqb, hqx⟩ := lt_min_iff.mp hq
  obtain ⟨y, rfl⟩ := exists_seen e q
  refine ⟨y, fun f => ?_, fun hy => absurd ((hy e).1 b hb) (not_le.mpr hqb)⟩
  by_cases hf : f = e
  · subst hf
    refine (admitsFlagged_downgradeSchema_iff h).mpr ⟨fun c' hc' => ?_, fun hnone => ?_⟩
    · rw [hc] at hc'
      rwa [← Option.some.inj hc']
    · rw [hc] at hnone
      cases hnone
  · exact (hx f).mono (seen_le_of_ne hf hqx.le)

end RangeEnd

/-! ### Both ends -/

/--
**The bounds of a schema in canonical form.**  At each end they are the bound that must not be
reached if there is one, and otherwise the one that may be.  So no number is shut out; and none is
let in if and only if at each end with two bounds the one that is left is the narrower one, or no
number at all is let in.
-/
theorem isBetween_downgradeSchema (h : HasFiniteBounds schema) :
    (∀ (e : RangeEnd) (x : ℚ), e.AdmitsFlagged (downgradeSchema schema) x
        ↔ (∀ c, numberAt schema e.exclusive = some c → e.seen c < e.seen x)
          ∧ (numberAt schema e.exclusive = none →
            ∀ b, numberAt schema e.bound = some b → e.seen b ≤ e.seen x))
      ∧ (∀ x, IsBetween schema x → IsBetweenFlagged (downgradeSchema schema) x)
      ∧ ((∀ x, IsBetween schema x ↔ IsBetweenFlagged (downgradeSchema schema) x)
        ↔ (∀ e : RangeEnd, e.IsNarrowed schema)
          ∨ ∀ x, ¬ IsBetweenFlagged (downgradeSchema schema) x) := by
  have hkept : ∀ x, IsBetween schema x → IsBetweenFlagged (downgradeSchema schema) x :=
    fun x hx e => (hx e).flagged h
  refine ⟨fun e x => RangeEnd.admitsFlagged_downgradeSchema_iff h, hkept, ?_, ?_⟩
  · intro hsame
    by_contra hlost
    simp only [not_or, not_forall, not_not] at hlost
    obtain ⟨⟨e, hnarrowed⟩, x, hx⟩ := hlost
    obtain ⟨y, hy, hout⟩ := RangeEnd.exists_between_of_not_isNarrowed h hnarrowed hx
    exact hout ((hsame y).mpr hy)
  · rintro (hnarrowed | hnone) x
    · exact ⟨hkept x, fun hx e => (hnarrowed e).admits h (hx e)⟩
    · exact iff_of_false (fun hx => hnone x (hkept x hx)) (hnone x)

/-- Lengths from minus one on that are above zero, and up to nine. -/
def lengthSchema : Fields Value :=
  [("type", .string "number"), ("minimum", .int (-1)),
    ("exclusiveMinimum", .scalar (.float (.finite false 0))), ("maximum", .int 9)]

theorem isBetween_lengthSchema :
    HasFiniteBounds lengthSchema ∧ (∀ e : RangeEnd, e.IsNarrowed lengthSchema)
      ∧ (∀ x, IsBetween lengthSchema x ↔ IsBetweenFlagged (downgradeSchema lengthSchema) x)
      ∧ IsBetweenFlagged (downgradeSchema lengthSchema) 1 := by
  have hfinite : HasFiniteBounds lengthSchema := by
    intro e
    cases e <;> decide
  have hnumbers : numberAt lengthSchema "minimum" = some (-1)
      ∧ numberAt lengthSchema "exclusiveMinimum" = some 0 ∧ numberAt lengthSchema "maximum" = some 9
      ∧ numberAt lengthSchema "exclusiveMaximum" = none := by
    have hzero : number? (.scalar (.float (.finite false 0))) = some 0 := by
      have hunits : Binary64.signedUnits false 0 = 0 := rfl
      rw [number?, hunits, Int.cast_zero, zero_div]
    exact ⟨rfl, hzero, rfl, rfl⟩
  obtain ⟨hminimum, hexclusive, hmaximum, hnone⟩ := hnumbers
  have hnarrowed : ∀ e : RangeEnd, e.IsNarrowed lengthSchema := by
    rintro (_ | _) b c hb hc
    · rw [RangeEnd.bound, hminimum] at hb
      rw [RangeEnd.exclusive, hexclusive] at hc
      cases hb
      cases hc
      decide
    · rw [RangeEnd.exclusive, hnone] at hc
      cases hc
  obtain ⟨hends, -, hsame⟩ := isBetween_downgradeSchema hfinite
  refine ⟨hfinite, hnarrowed, hsame.mpr (.inl hnarrowed), fun e => (hends e 1).mpr ?_⟩
  cases e with
  | lower => simp [RangeEnd.bound, RangeEnd.exclusive, RangeEnd.seen, hexclusive]
  | upper => simp [RangeEnd.bound, RangeEnd.exclusive, RangeEnd.seen, hnone, hmaximum]

/-- Ages from ten on that are above five. -/
def ageSchema : Fields Value :=
  [("type", .string "integer"), ("minimum", .int 10), ("exclusiveMinimum", .int 5)]

/-- **A bound is lost**: ages from six to nine are let in. -/
theorem not_isBetween_ageSchema :
    downgradeSchema ageSchema
        = [("type", .string "integer"), ("minimum", .int 5), ("exclusiveMinimum", .bool true)]
      ∧ HasFiniteBounds ageSchema
      ∧ IsBetweenFlagged (downgradeSchema ageSchema) 7 ∧ ¬ IsBetween ageSchema 7
      ∧ ¬ ∀ schema, HasFiniteBounds schema → ∀ x, IsBetween schema x
        ↔ IsBetweenFlagged (downgradeSchema schema) x := by
  have hfinite : HasFiniteBounds ageSchema := by
    intro e
    cases e <;> decide
  have hminimum : numberAt ageSchema "minimum" = some 10 := rfl
  have hexclusive : numberAt ageSchema "exclusiveMinimum" = some 5 := rfl
  have hflagged : IsBetweenFlagged (downgradeSchema ageSchema) 7 := by
    intro e
    refine (RangeEnd.admitsFlagged_downgradeSchema_iff hfinite).mpr ?_
    cases e with
    | lower =>
        rw [RangeEnd.exclusive, hexclusive]
        refine ⟨fun c hc => ?_, fun hnone => nomatch hnone⟩
        rw [← Option.some.inj hc]
        decide
    | upper => exact ⟨fun c hc => (nomatch hc), fun _ b hb => nomatch hb⟩
  have hout : ¬ IsBetween ageSchema 7 := fun h => absurd ((h .lower).1 10 hminimum) (by decide)
  exact ⟨by decide, hfinite, hflagged, hout, fun h => hout ((h _ hfinite 7).mpr hflagged)⟩

end ApiClientGen.Canonical
