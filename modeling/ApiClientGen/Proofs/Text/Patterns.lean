/-
Patterns, and texts in which their matches are replaced.

A pattern is a row of parts in two groups, where a part is a character of a class or a run of them.
A match is looked for at one place of a text after the other, and a run takes as many characters as
there are, and fewer only where the parts behind it fail otherwise.  The characters of a match are
not looked at again, so that no match overlaps the one before it.

The order of trying decides between the matches at one place.  Which matches there are at all is said
without it, by the characters that the two groups take.  What a substitution does to all texts is
shown for its two steps: a match is replaced, or a character is passed over because no match begins
with it.
-/
import Mathlib.Data.List.Basic

namespace ApiClientGen.Text

/-! ### Matches in the order of trying -/

/-- A part of a pattern: a character of a class, or a run of such characters, which is not empty. -/
inductive Part where
  | single (p : Char → Bool)
  | run (p : Char → Bool)

/-- All that a part can take from the front of a text, each with what is left. -/
def Part.takes : Part → List Char → List (List Char × List Char)
  | _, [] => []
  | .single p, c :: s => if p c then [([c], s)] else []
  | .run p, c :: s =>
    -- The longest run is tried first.
    if p c then ((Part.run p).takes s).map (fun (taken, left) => (c :: taken, left)) ++ [([c], s)]
    else []

/-- All that a row of parts can take from the front of a text, each with what is left. -/
def takesAll : List Part → List Char → List (List Char × List Char)
  | [], s => [([], s)]
  | part :: parts, s =>
    (part.takes s).flatMap fun (taken, left) =>
      (takesAll parts left).map fun (more, rest) => (taken ++ more, rest)

/-- What two groups of parts have taken from the front of a text, and what is left of it. -/
structure Match where
  first : List Char
  second : List Char
  rest : List Char

/-- Two groups of parts, the first of which is not empty. -/
structure Pattern where
  first : List Part
  second : List Part
  first_ne_nil : first ≠ [] := by simp

/-- The matches of a pattern at the front of a text. -/
def Pattern.matchesOf (pattern : Pattern) (s : List Char) : List Match :=
  (takesAll pattern.first s).flatMap fun (first, left) =>
    (takesAll pattern.second left).map fun (second, rest) => { first, second, rest }

/-! ### What fits -/

/-- The texts that a part stands for. -/
def Part.Fits : Part → List Char → Prop
  | .single p, u => ∃ c, p c = true ∧ u = [c]
  | .run p, u => u ≠ [] ∧ ∀ c ∈ u, p c = true

/-- The texts that a row of parts stands for. -/
def FitsAll : List Part → List Char → Prop
  | [], u => u = []
  | part :: parts, u => ∃ v w, part.Fits v ∧ FitsAll parts w ∧ u = v ++ w

theorem Part.Fits.ne_nil {part : Part} {u : List Char} (h : part.Fits u) : u ≠ [] := by
  cases part with
  | single p =>
      obtain ⟨c, -, rfl⟩ := h
      simp
  | run p => exact h.1

theorem fitsAll_nil {u : List Char} : FitsAll [] u ↔ u = [] := Iff.rfl

theorem fitsAll_singleton {part : Part} {u : List Char} : FitsAll [part] u ↔ part.Fits u := by
  simp [FitsAll]

theorem fitsAll_two_singles {p q : Char → Bool} {u : List Char} :
    FitsAll [.single p, .single q] u ↔ ∃ a b, p a = true ∧ q b = true ∧ u = [a, b] := by
  simp only [FitsAll, Part.Fits]
  constructor
  · rintro ⟨-, -, ⟨a, ha, rfl⟩, ⟨-, -, ⟨b, hb, rfl⟩, rfl, rfl⟩, rfl⟩
    exact ⟨a, b, ha, hb, rfl⟩
  · rintro ⟨a, b, ha, hb, rfl⟩
    exact ⟨[a], [b], ⟨a, ha, rfl⟩, ⟨[b], [], ⟨b, hb, rfl⟩, rfl, rfl⟩, rfl⟩

theorem Part.mem_takes_single {p : Char → Bool} {s taken left : List Char} :
    (taken, left) ∈ (Part.single p).takes s ↔ (Part.single p).Fits taken ∧ s = taken ++ left := by
  cases s with
  | nil => simp +contextual [takes, Fits]
  | cons c s =>
      by_cases hc : p c = true
      · simp only [takes, if_pos hc, List.mem_singleton, Prod.mk.injEq]
        constructor
        · rintro ⟨rfl, rfl⟩
          exact ⟨⟨c, hc, rfl⟩, rfl⟩
        · rintro ⟨⟨d, -, rfl⟩, heq⟩
          obtain ⟨rfl, rfl⟩ := List.cons.inj heq
          exact ⟨rfl, rfl⟩
      · simp only [takes, if_neg hc, List.not_mem_nil, false_iff]
        rintro ⟨⟨d, hd, rfl⟩, heq⟩
        rw [(List.cons.inj heq).1] at hc
        exact hc hd

theorem Part.mem_takes_run {p : Char → Bool} {s taken left : List Char} :
    (taken, left) ∈ (Part.run p).takes s ↔ (Part.run p).Fits taken ∧ s = taken ++ left := by
  induction s generalizing taken with
  | nil => simp +contextual [takes, Fits]
  | cons c s ih =>
      by_cases hc : p c = true
      · simp only [takes, if_pos hc, List.mem_append, List.mem_map, List.mem_singleton,
          Prod.mk.injEq, Prod.exists]
        constructor
        · rintro (⟨more, left, hmem, rfl, rfl⟩ | ⟨rfl, rfl⟩)
          · obtain ⟨⟨-, hmore⟩, rfl⟩ := ih.mp hmem
            exact ⟨⟨by simp, List.forall_mem_cons.mpr ⟨hc, hmore⟩⟩, rfl⟩
          · exact ⟨⟨by simp, by simpa using hc⟩, rfl⟩
        · rintro ⟨⟨hne, hall⟩, heq⟩
          obtain ⟨d, more, rfl⟩ := List.exists_cons_of_ne_nil hne
          obtain ⟨rfl, rfl⟩ := List.cons.inj heq
          cases more with
          | nil => exact Or.inr ⟨rfl, rfl⟩
          | cons d more =>
              exact Or.inl ⟨d :: more, left,
                ih.mpr ⟨⟨by simp, (List.forall_mem_cons.mp hall).2⟩, rfl⟩, rfl, rfl⟩
      · simp only [takes, if_neg hc, List.not_mem_nil, false_iff]
        rintro ⟨⟨hne, hall⟩, heq⟩
        obtain ⟨d, more, rfl⟩ := List.exists_cons_of_ne_nil hne
        rw [(List.cons.inj heq).1] at hc
        exact hc (hall d (by simp))

theorem Part.mem_takes {part : Part} {s taken left : List Char} :
    (taken, left) ∈ part.takes s ↔ part.Fits taken ∧ s = taken ++ left := by
  cases part with
  | single p => exact mem_takes_single
  | run p => exact mem_takes_run

theorem mem_takesAll {parts : List Part} {s taken left : List Char} :
    (taken, left) ∈ takesAll parts s ↔ FitsAll parts taken ∧ s = taken ++ left := by
  induction parts generalizing s taken with
  | nil =>
      simp only [takesAll, FitsAll, List.mem_singleton, Prod.mk.injEq]
      constructor
      · rintro ⟨rfl, rfl⟩
        exact ⟨rfl, rfl⟩
      · rintro ⟨rfl, rfl⟩
        exact ⟨rfl, rfl⟩
  | cons part parts ih =>
      simp only [takesAll, List.mem_flatMap, List.mem_map, Prod.mk.injEq, Prod.exists, FitsAll]
      constructor
      · rintro ⟨u, middle, hpart, v, left, hparts, rfl, rfl⟩
        obtain ⟨hu, rfl⟩ := Part.mem_takes.mp hpart
        obtain ⟨hv, rfl⟩ := ih.mp hparts
        exact ⟨⟨u, v, hu, hv, rfl⟩, by simp⟩
      · rintro ⟨⟨u, v, hu, hv, rfl⟩, rfl⟩
        exact ⟨u, v ++ left, Part.mem_takes.mpr ⟨hu, by simp⟩, v, left, ih.mpr ⟨hv, rfl⟩, rfl, rfl⟩

/-- **A pattern has all the matches whose groups fit**, whatever the order of trying. -/
theorem mem_matchesOf {pattern : Pattern} {s : List Char} {m : Match} :
    m ∈ pattern.matchesOf s ↔ FitsAll pattern.first m.first ∧ FitsAll pattern.second m.second
      ∧ s = m.first ++ (m.second ++ m.rest) := by
  obtain ⟨first, second, rest⟩ := m
  simp only [Pattern.matchesOf, List.mem_flatMap, List.mem_map, Prod.exists, Match.mk.injEq,
    mem_takesAll]
  constructor
  · rintro ⟨u, left, ⟨hu, rfl⟩, v, rest, ⟨hv, rfl⟩, rfl, rfl, rfl⟩
    exact ⟨hu, hv, rfl⟩
  · rintro ⟨hu, hv, rfl⟩
    exact ⟨first, second ++ rest, ⟨hu, rfl⟩, second, rest, ⟨hv, rfl⟩, rfl, rfl, rfl⟩

/-- A match takes at least one character. -/
theorem length_rest_lt {pattern : Pattern} {s : List Char} {m : Match}
    (h : m ∈ pattern.matchesOf s) : m.rest.length < s.length := by
  obtain ⟨hfirst, -, rfl⟩ := mem_matchesOf.mp h
  obtain ⟨part, parts, hparts⟩ := List.exists_cons_of_ne_nil pattern.first_ne_nil
  rw [hparts] at hfirst
  obtain ⟨u, v, hu, -, hsplit⟩ := hfirst
  have hpos := List.length_pos_iff.mpr hu.ne_nil
  rw [hsplit]
  simp only [List.length_append]
  omega

/-! ### Substitution -/

/-- Replaces the matches of a pattern in a text, from left to right. -/
def Pattern.substitute (pattern : Pattern) (replacement : List Char → List Char → List Char)
    (s : List Char) : List Char :=
  match _ : (pattern.matchesOf s).head? with
  | some m => replacement m.first m.second ++ pattern.substitute replacement m.rest
  | none =>
    match s with
    | [] => []
    | c :: s => c :: pattern.substitute replacement s
termination_by s.length
decreasing_by
  · exact length_rest_lt (List.mem_of_head? ‹_›)
  · simp

/--
**A substitution takes two steps**: what holds of the empty text, and goes on over a match that is
replaced and over a character with which no match begins, holds of every text and its substitute.
-/
theorem Pattern.substitute_induction (pattern : Pattern)
    (replacement : List Char → List Char → List Char) {motive : List Char → List Char → Prop}
    (nil : motive [] [])
    (replaced : ∀ s m t, m ∈ pattern.matchesOf s → motive m.rest t →
      motive s (replacement m.first m.second ++ t))
    (passed : ∀ c s t, (∀ m, m ∉ pattern.matchesOf (c :: s)) → motive s t →
      motive (c :: s) (c :: t))
    (s : List Char) : motive s (pattern.substitute replacement s) := by
  fun_induction pattern.substitute replacement s with
  | case1 s m h ih => exact replaced s m _ (List.mem_of_head? h) ih
  | case2 h => exact nil
  | case3 c s h ih =>
      exact passed c s _ (List.eq_nil_iff_forall_not_mem.mp (List.head?_eq_none_iff.mp h)) ih

end ApiClientGen.Text
