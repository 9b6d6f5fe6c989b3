/-
Where a name is cut into words.

The words of a name are cut in one pass, which looks at a character and at the two behind it.  They
are also what a rewriting of the whole name leaves between low lines: what belongs to no word becomes
a low line, then one is put before the last capital of a run that a small letter follows, and then
one between a small letter or a digit and a capital.

Each of these substitutions takes as much as it can in one match and does not look at it again.  No
boundary is missed for that.  A match ends in a small letter in one of them and in a capital in the
other, and no match of the same pattern begins there; inside of a run of capitals there is only one
place that a small letter follows.  So a substitution puts its low lines wherever two characters meet
that have a boundary between them, and the two together put them wherever a word begins.
-/
import ApiClientGen.Proofs.Naming.JoinedWords
import ApiClientGen.Proofs.Text.Patterns
import ApiClientGen.Text.Split

namespace ApiClientGen.Naming

open ApiClientGen.Text

/-! ### The words of a name, found by rewriting -/

/-- What belongs to no word, as long as it goes on. -/
def gaps : Pattern where
  first := [.run fun c => !isWordChar c]
  second := []

/-- A run of capital letters, and another one that a small letter follows. -/
def capitalRuns : Pattern where
  first := [.run Char.isUpper]
  second := [.single Char.isUpper, .single Char.isLower]

/-- A small letter or a digit, and a capital letter behind it. -/
def humps : Pattern where
  first := [.single fun c => c.isLower || c.isDigit]
  second := [.single Char.isUpper]

/-- The two groups of a match with a low line between them. -/
def withLine (first second : List Char) : List Char := first ++ '_' :: second

/-- A name with one low line for each gap. -/
def withoutGaps (s : List Char) : List Char := gaps.substitute (fun _ _ => ['_']) s

/-- The texts between low lines, but for the empty ones. -/
def betweenLines (s : List Char) : List (List Char) := (splitOn '_' s).filter fun w => !w.isEmpty

/-- What is left of a name between low lines when it is rewritten. -/
def rewrittenWords (s : List Char) : List (List Char) :=
  betweenLines (humps.substitute withLine (capitalRuns.substitute withLine (withoutGaps s)))

/-! ### What matches -/

theorem mem_matchesOf_gaps {s : List Char} {m : Match} :
    m ∈ gaps.matchesOf s ↔ (m.first ≠ [] ∧ ∀ c ∈ m.first, isWordChar c = false) ∧ m.second = []
      ∧ s = m.first ++ (m.second ++ m.rest) := by
  simp only [mem_matchesOf, gaps, fitsAll_singleton, fitsAll_nil, Part.Fits, Bool.not_eq_true']

theorem mem_matchesOf_capitalRuns {s : List Char} {m : Match} :
    m ∈ capitalRuns.matchesOf s ↔ (m.first ≠ [] ∧ ∀ c ∈ m.first, c.isUpper = true)
      ∧ (∃ b c, b.isUpper = true ∧ c.isLower = true ∧ m.second = [b, c])
      ∧ s = m.first ++ (m.second ++ m.rest) := by
  simp only [mem_matchesOf, capitalRuns, fitsAll_singleton, fitsAll_two_singles, Part.Fits]

theorem mem_matchesOf_humps {s : List Char} {m : Match} :
    m ∈ humps.matchesOf s ↔ (∃ a, (a.isLower = true ∨ a.isDigit = true) ∧ m.first = [a])
      ∧ (∃ b, b.isUpper = true ∧ m.second = [b]) ∧ s = m.first ++ (m.second ++ m.rest) := by
  simp only [mem_matchesOf, humps, fitsAll_singleton, Part.Fits, Bool.or_eq_true]

/-! ### Low lines between characters -/

/-- Whether a capital follows another one, and a small letter follows it. -/
def startsBehindCapital (a b : Char) (after : Option Char) : Bool :=
  a.isUpper && b.isUpper && (after.map Char.isLower).getD false

/-- Whether a capital follows a small letter or a digit. -/
def startsBehindSmall (a b : Char) (_ : Option Char) : Bool := (a.isLower || a.isDigit) && b.isUpper

/-- A text with a low line between two characters wherever a test holds of them and of the next. -/
def lined (starts : Char → Char → Option Char → Bool) : List Char → List Char
  | c :: d :: s =>
    if starts c d s.head? then c :: '_' :: lined starts (d :: s) else c :: lined starts (d :: s)
  | s => s

section

variable {starts : Char → Char → Option Char → Bool}

theorem lined_cons_cons (c d : Char) (s : List Char) :
    lined starts (c :: d :: s) =
      if starts c d s.head? then c :: '_' :: lined starts (d :: s) else c :: lined starts (d :: s) :=
  rfl

theorem lined_cons {c : Char} {s : List Char}
    (h : ∀ d more, s = d :: more → starts c d more.head? = false) :
    lined starts (c :: s) = c :: lined starts s := by
  cases s with
  | nil => rfl
  | cons d s => rw [lined_cons_cons, h d s rfl, if_neg Bool.false_ne_true]

theorem exists_lined_cons (starts : Char → Char → Option Char → Bool) (c : Char) (s : List Char) :
    ∃ t, lined starts (c :: s) = c :: t := by
  cases s with
  | nil => exact ⟨[], rfl⟩
  | cons d s =>
      rw [lined_cons_cons]
      split
      · exact ⟨_, rfl⟩
      · exact ⟨_, rfl⟩

/--
Substitution puts a low line wherever a test holds, if a match gets no other low lines from the test
than its own, and if a match begins wherever the test holds.
-/
theorem substitute_eq_lined {pattern : Pattern}
    (hmatch : ∀ s, ∀ m ∈ pattern.matchesOf s,
      lined starts s = withLine m.first m.second ++ lined starts m.rest)
    (hstarts : ∀ c d more, starts c d more.head? = true → ∃ m, m ∈ pattern.matchesOf (c :: d :: more))
    (s : List Char) : pattern.substitute withLine s = lined starts s := by
  refine pattern.substitute_induction withLine (motive := fun s t => t = lined starts s) rfl
    (fun s m t hm ht => ?_) (fun c s t hnone ht => ?_) s
  · rw [ht, hmatch s m hm]
  · rw [lined_cons, ht]
    rintro d more rfl
    by_contra htest
    obtain ⟨m, hm⟩ := hstarts c d more (Bool.eq_true_of_not_eq_false htest)
    exact hnone m hm

end

theorem lowLine_spec : ('_').isUpper = false ∧ ('_').isLower = false ∧ ('_').isDigit = false := by
  decide

/-- A word begins behind a capital or behind a small letter or a digit. -/
theorem startsWord_eq (a b : Char) (after : Option Char) :
    startsWord a b after = (startsBehindCapital a b after || startsBehindSmall a b after) := by
  unfold startsWord startsBehindCapital startsBehindSmall
  cases a.isUpper <;> cases b.isUpper <;> cases (a.isLower || a.isDigit) <;> simp

/-- A run of capitals gets its low line in front of the last one, if a small letter follows. -/
theorem lined_capitals {u : List Char} (hne : u ≠ []) (hu : ∀ a ∈ u, a.isUpper = true) {b c : Char}
    (hb : b.isUpper = true) (hc : c.isLower = true) (s : List Char) :
    lined startsBehindCapital (u ++ b :: c :: s) = u ++ '_' :: b :: c :: lined startsBehindCapital s := by
  have hcUpper : c.isUpper = false := isUpper_eq_false_of_isSmallChar (by simp [isSmallChar, hc])
  induction u with
  | nil => exact absurd rfl hne
  | cons a u ih =>
      obtain ⟨ha, hu⟩ := List.forall_mem_cons.mp hu
      cases u with
      | nil =>
          have hlast : startsBehindCapital a b (some c) = true := by simp [startsBehindCapital, ha, hb, hc]
          rw [List.singleton_append, lined_cons_cons, List.head?_cons, if_pos hlast,
            lined_cons (by simp [startsBehindCapital, hcUpper]),
            lined_cons (by simp [startsBehindCapital, hcUpper])]
          rfl
      | cons d u =>
          have hnext : ∃ e, (u ++ b :: c :: s).head? = some e ∧ e.isLower = false := by
            cases u with
            | nil => exact ⟨b, rfl, (isUpper_spec hb).1⟩
            | cons e u => exact ⟨e, rfl, (isUpper_spec (hu e (by simp))).1⟩
          obtain ⟨e, hhead, he⟩ := hnext
          have hmiddle : startsBehindCapital a d (u ++ b :: c :: s).head? = false := by
            simp [startsBehindCapital, hhead, he]
          rw [List.cons_append, List.cons_append, lined_cons_cons, hmiddle,
            if_neg Bool.false_ne_true, ← List.cons_append, ih (by simp) hu]
          rfl

/-- **No boundary behind a capital is missed** by the rewriting of runs of capitals. -/
theorem substitute_capitalRuns (s : List Char) :
    capitalRuns.substitute withLine s = lined startsBehindCapital s := by
  refine substitute_eq_lined (fun s m hm => ?_) (fun c d more hstarts => ?_) s
  · obtain ⟨⟨hne, hu⟩, ⟨b, c, hb, hc, hsecond⟩, rfl⟩ := mem_matchesOf_capitalRuns.mp hm
    rw [hsecond, List.cons_append, List.singleton_append, lined_capitals hne hu hb hc]
    simp [withLine]
  · obtain ⟨e, rest, rfl, hc, hd, he⟩ : ∃ e rest, more = e :: rest ∧ c.isUpper = true
        ∧ d.isUpper = true ∧ e.isLower = true := by
      cases more with
      | nil => simp [startsBehindCapital] at hstarts
      | cons e rest => simpa [startsBehindCapital, and_assoc] using hstarts
    exact ⟨⟨[c], [d, e], rest⟩,
      mem_matchesOf_capitalRuns.mpr ⟨⟨by simp, by simpa using hc⟩, ⟨d, e, hd, he, rfl⟩, rfl⟩⟩

/-- **No boundary behind a small letter or a digit is missed** either. -/
theorem substitute_humps (s : List Char) : humps.substitute withLine s = lined startsBehindSmall s := by
  refine substitute_eq_lined (fun s m hm => ?_) (fun c d more hstarts => ?_) s
  · obtain ⟨⟨a, ha, hfirst⟩, ⟨b, hb, hsecond⟩, rfl⟩ := mem_matchesOf_humps.mp hm
    obtain ⟨hlower, hdigit⟩ := isUpper_spec hb
    have hstarts : startsBehindSmall a b m.rest.head? = true := by
      simpa [startsBehindSmall, hb] using ha
    rw [hfirst, hsecond, List.singleton_append, List.singleton_append, lined_cons_cons,
      if_pos hstarts, lined_cons (by simp [startsBehindSmall, hlower, hdigit])]
    rfl
  · obtain ⟨hc, hd⟩ : (c.isLower = true ∨ c.isDigit = true) ∧ d.isUpper = true := by
      simpa [startsBehindSmall] using hstarts
    exact ⟨⟨[c], [d], more⟩, mem_matchesOf_humps.mpr ⟨⟨c, hc, rfl⟩, ⟨d, hd, rfl⟩, rfl⟩⟩

/-- Low lines that are there already do not stand in the way of those behind small letters. -/
theorem lined_lined (s : List Char) :
    lined startsBehindSmall (lined startsBehindCapital s) = lined startsWord s := by
  induction s with
  | nil => rfl
  | cons c s ih =>
      cases s with
      | nil => rfl
      | cons d s =>
          obtain ⟨t, ht⟩ := exists_lined_cons startsBehindCapital d s
          rw [lined_cons_cons, lined_cons_cons, startsWord_eq, ← ih, ht]
          by_cases hcapital : startsBehindCapital c d s.head? = true
          · rw [if_pos hcapital, if_pos (by simp [hcapital]),
              lined_cons (by simp [startsBehindSmall, lowLine_spec]),
              lined_cons (by simp [startsBehindSmall, lowLine_spec])]
          · rw [if_neg hcapital, lined_cons_cons]
            simp [hcapital, startsBehindSmall]

/-! ### What stands between low lines -/

theorem betweenLines_line (s : List Char) : betweenLines ('_' :: s) = betweenLines s := by
  simp [betweenLines, splitOn]

theorem betweenLines_singleton {c : Char} (hc : c ≠ '_') : betweenLines [c] = [[c]] := by
  simp [betweenLines, splitOn, hc]

theorem betweenLines_cons_line {c : Char} (hc : c ≠ '_') (s : List Char) :
    betweenLines (c :: '_' :: s) = [c] :: betweenLines s := by
  simp [betweenLines, splitOn, hc]

theorem betweenLines_cons_cons {c d : Char} (hc : c ≠ '_') (hd : d ≠ '_') (s : List Char) :
    betweenLines (c :: d :: s) = consFirst c (betweenLines (d :: s)) := by
  obtain ⟨w, ws, hws⟩ := List.exists_cons_of_ne_nil (splitOn_ne_nil '_' s)
  simp [betweenLines, splitOn, hc, hd, hws, consFirst]

/-! ### Words, character by character -/

/-- Whether the word of a character goes on with the letters and digits behind it. -/
def goesOn (c : Char) : List Char → Bool
  | [] => false
  | d :: run => !startsWord c d run.head?

/-- What is neither letter nor digit counts for no boundary. -/
theorem startsWord_takeWhile (c d : Char) (s : List Char) :
    startsWord c d (s.takeWhile isWordChar).head? = startsWord c d s.head? := by
  cases s with
  | nil => rfl
  | cons e s =>
      by_cases he : isWordChar e = true
      · rw [List.takeWhile_cons_of_pos he, List.head?_cons, List.head?_cons]
      · have hsmall : e.isLower = false := by
          simp only [isWordChar, Char.isAlphanum, Char.isAlpha, Bool.or_eq_true, not_or,
            Bool.not_eq_true] at he
          exact he.1.2
        simp [List.takeWhile_cons_of_neg he, startsWord, hsmall]

theorem goesOn_takeWhile {c d : Char} (hd : isWordChar d = true) (s : List Char) :
    goesOn c ((d :: s).takeWhile isWordChar) = !startsWord c d s.head? := by
  rw [List.takeWhile_cons_of_pos hd, goesOn, startsWord_takeWhile]

/-- The word of a character goes on, or another one begins behind it. -/
theorem words_cons {c : Char} (hc : isWordChar c = true) (s : List Char) :
    words (c :: s) = if goesOn c (s.takeWhile isWordChar) then consFirst c (words s)
      else [c] :: words s := by
  cases s with
  | nil => simp [words, goesOn, hc]
  | cons d s =>
      rw [words, if_pos hc]
      by_cases hd : isWordChar d = true
      · rw [goesOn_takeWhile hd]
        simp [hd]
      · simp [List.takeWhile_cons_of_neg hd, goesOn, hd]

theorem words_line (s : List Char) : words ('_' :: s) = words s := by
  rw [words, if_neg (by decide)]

theorem startsWord_line_left (b : Char) (after : Option Char) : startsWord '_' b after = false := by
  simp [startsWord, lowLine_spec]

theorem startsWord_line_right (a : Char) (after : Option Char) : startsWord a '_' after = false := by
  simp [startsWord, lowLine_spec]

theorem lined_line (s : List Char) : lined startsWord ('_' :: s) = '_' :: lined startsWord s :=
  lined_cons fun d more _ => startsWord_line_left d more.head?

/-- **Words stand between low lines** once these are put wherever a word begins. -/
theorem betweenLines_lined {s : List Char} (h : ∀ c ∈ s, isWordChar c = true ∨ c = '_') :
    betweenLines (lined startsWord s) = words s := by
  induction s with
  | nil => rfl
  | cons c s ih =>
      obtain ⟨hc, hs⟩ := List.forall_mem_cons.mp h
      have hrest := ih hs
      rcases hc with hc | rfl
      · have hne : ∀ {e : Char}, isWordChar e = true → e ≠ '_' := by
          rintro e he rfl
          exact absurd he (by decide)
        rw [words_cons hc]
        cases s with
        | nil => exact betweenLines_singleton (hne hc)
        | cons d s =>
            obtain ⟨t, ht⟩ := exists_lined_cons startsWord d s
            rcases hs d (by simp) with hd | rfl
            · rw [lined_cons_cons, goesOn_takeWhile hd, ← hrest, ht]
              cases startsWord c d s.head? with
              | true => simp [betweenLines_cons_line (hne hc)]
              | false => simp [betweenLines_cons_cons (hne hc) (hne hd)]
            · have hnone : goesOn c (('_' :: s).takeWhile isWordChar) = false := rfl
              rw [lined_cons (by simp [startsWord_line_right]), hnone, if_neg Bool.false_ne_true,
                ← hrest, lined_line, betweenLines_cons_line (hne hc), betweenLines_line]
      · rw [lined_line, betweenLines_line, words_line, hrest]

/-! ### What gaps leave behind -/

/-- **Gaps take nothing from words**: no character of them, and none that decides where they begin. -/
theorem words_withoutGaps (s : List Char) :
    words (withoutGaps s) = words s
      ∧ (withoutGaps s).takeWhile isWordChar = s.takeWhile isWordChar
      ∧ ∀ c ∈ withoutGaps s, isWordChar c = true ∨ c = '_' := by
  refine gaps.substitute_induction (fun _ _ => ['_'])
    (motive := fun s t => words t = words s ∧ t.takeWhile isWordChar = s.takeWhile isWordChar
      ∧ ∀ c ∈ t, isWordChar c = true ∨ c = '_')
    ⟨rfl, rfl, by simp⟩ (fun s m t hm ht => ?_) (fun c s t hnone ht => ?_) s
  · obtain ⟨⟨hne, hgap⟩, hsecond, rfl⟩ := mem_matchesOf_gaps.mp hm
    obtain ⟨hwords, -, hchars⟩ := ht
    rw [hsecond, List.nil_append]
    refine ⟨?_, ?_, List.forall_mem_cons.mpr ⟨Or.inr rfl, hchars⟩⟩
    · rw [List.singleton_append, words_line, hwords, words_gap_append hgap]
    · obtain ⟨c, gap, hfirst⟩ := List.exists_cons_of_ne_nil hne
      have hc : isWordChar c = false := hgap c (by simp [hfirst])
      rw [hfirst, List.cons_append, List.cons_append, List.takeWhile_cons_of_neg (by decide),
        List.takeWhile_cons_of_neg (by simp [hc])]
  · obtain ⟨hwords, hrun, hchars⟩ := ht
    have hc : isWordChar c = true := by
      by_contra hgap
      exact hnone ⟨[c], [], s⟩ (mem_matchesOf_gaps.mpr ⟨⟨by simp, by simpa using hgap⟩, rfl, rfl⟩)
    refine ⟨?_, ?_, List.forall_mem_cons.mpr ⟨Or.inl hc, hchars⟩⟩
    · rw [words_cons hc, words_cons hc, hwords, hrun]
    · rw [List.takeWhile_cons_of_pos hc, List.takeWhile_cons_of_pos hc, hrun]

/-- The words of a name are what is left of it between low lines. -/
theorem rewrittenWords_eq (s : List Char) : rewrittenWords s = words s := by
  obtain ⟨hwords, -, hchars⟩ := words_withoutGaps s
  rw [rewrittenWords, substitute_capitalRuns, substitute_humps, lined_lined,
    betweenLines_lined hchars, hwords]

/-! ### Words of words -/

theorem exists_of_goesOn {c : Char} {s : List Char} (h : goesOn c (s.takeWhile isWordChar) = true) :
    ∃ d rest, s = d :: rest ∧ isWordChar d = true ∧ startsWord c d rest.head? = false := by
  cases s with
  | nil => cases h
  | cons d rest =>
      by_cases hd : isWordChar d = true
      · rw [goesOn_takeWhile hd] at h
        exact ⟨d, rest, rfl, hd, by simpa using h⟩
      · rw [List.takeWhile_cons_of_neg hd] at h
        cases h

/-- The first word is a beginning of the letters and digits that a text begins with. -/
theorem prefix_of_words_eq {c : Char} (hc : isWordChar c = true) {s w : List Char}
    {ws : List (List Char)} (h : words (c :: s) = w :: ws) :
    w <+: (c :: s).takeWhile isWordChar := by
  rw [List.takeWhile_cons_of_pos hc]
  induction s generalizing c w ws with
  | nil =>
      obtain rfl : [c] = w := by simpa [words, hc] using congrArg List.head? h
      exact List.prefix_append [c] _
  | cons d s ih =>
      rw [words_cons hc] at h
      split at h
      · rename_i hgoes
        obtain ⟨d', s', heq, hd, -⟩ := exists_of_goesOn hgoes
        obtain ⟨rfl, rfl⟩ := List.cons.inj heq
        obtain ⟨v, vs, hv⟩ := List.exists_cons_of_ne_nil (words_ne_nil hd s)
        rw [hv, consFirst] at h
        obtain ⟨rfl, -⟩ := List.cons.inj h
        rw [List.takeWhile_cons_of_pos hd]
        exact List.cons_prefix_cons.mpr ⟨rfl, ih hd hv⟩
      · obtain ⟨rfl, -⟩ := List.cons.inj h
        exact List.prefix_append [c] _

/-- A character goes on with the first word behind it if it does with all the letters there. -/
theorem goesOn_of_prefix {c : Char} {w run : List Char} (hne : w ≠ []) (hw : w <+: run)
    (h : goesOn c run = true) : goesOn c w = true := by
  obtain ⟨d, w, rfl⟩ := List.exists_cons_of_ne_nil hne
  obtain ⟨rest, rfl⟩ := hw
  simp only [List.cons_append, goesOn, Bool.not_eq_true'] at h ⊢
  cases w with
  | nil =>
      -- With nothing behind it a character begins a word only for the one before.
      simp only [startsWord, Bool.and_eq_false_iff, Bool.or_eq_false_iff] at h ⊢
      rcases h with hd | ⟨hc, -⟩
      · exact Or.inl hd
      · exact Or.inr ⟨hc, Or.inr rfl⟩
  | cons e w => exact h

/-- **A word is the only word of its own**. -/
theorem words_of_mem_words {s w : List Char} (hw : w ∈ words s) : words w = [w] := by
  induction s generalizing w with
  | nil => cases hw
  | cons c s ih =>
      by_cases hc : isWordChar c = true
      · rw [words_cons hc] at hw
        split at hw
        · rename_i hgoes
          obtain ⟨d, rest, rfl, hd, -⟩ := exists_of_goesOn hgoes
          obtain ⟨v, vs, hv⟩ := List.exists_cons_of_ne_nil (words_ne_nil hd rest)
          rw [hv, consFirst] at hw
          have hmem : v ∈ words (d :: rest) := by simp [hv]
          rcases List.mem_cons.mp hw with rfl | hw
          · have hall : v.takeWhile isWordChar = v :=
              List.takeWhile_eq_self_iff.mpr fun e he => isAlphanum_of_mem_words hmem he
            have hjoins : goesOn c v = true :=
              goesOn_of_prefix (ne_nil_of_mem_words v hmem) (prefix_of_words_eq hd hv) hgoes
            rw [words_cons hc, hall, if_pos hjoins, ih hmem, consFirst]
          · exact ih (by simp [hv, hw])
        · rcases List.mem_cons.mp hw with rfl | hw
          · simp [words, hc]
          · exact ih hw
      · rw [words, if_neg hc] at hw
        exact ih hw

/-! ### Boundaries -/

/-- A text that no word begins inside of. -/
structure HasNoBoundary (w : List Char) : Prop where
  /-- No capital letter stands right behind a small one or a digit. -/
  small_capital : ∀ a b, [a, b] <:+: w → a.isLower = true ∨ a.isDigit = true → b.isUpper = false
  /-- No small letter stands right behind two capital ones. -/
  capitals_small : ∀ a b c, [a, b, c] <:+: w → a.isUpper = true → b.isUpper = true →
    c.isLower = false

theorem hasNoBoundary_of_mem_words {s w : List Char} (hw : w ∈ words s) : HasNoBoundary w := by
  have hone : (words w).length = 1 := by
    rw [words_of_mem_words hw]
    rfl
  have hchars := fun c hc => isAlphanum_of_mem_words hw (c := c) hc
  constructor
  · rintro a b ⟨before, after, rfl⟩ ha
    rw [List.append_assoc] at hone
    have hstarts := startsWord_of_length_words (hchars b (by simp)) (hchars a (by simp)) hone
    rcases ha with ha | ha
    · simpa [startsWord, ha] using hstarts
    · simpa [startsWord, ha] using hstarts
  · rintro a b c ⟨before, after, rfl⟩ ha hb
    rw [List.append_assoc] at hone
    have hstarts := startsWord_of_length_words (hchars b (by simp)) (hchars a (by simp)) hone
    simpa [startsWord, ha, hb, isUpper_spec ha] using hstarts

/--
**A name is cut into words wherever one begins, and nowhere else.**  The words are what a rewriting
of the name leaves between low lines.  None of them is empty or has a boundary inside, put together
they are all ASCII letters and digits of the name, and spelling a name in small letters once more
changes nothing.
-/
theorem words_at_boundaries (name : String) :
    words name.toList = rewrittenWords name.toList
      ∧ (∀ w ∈ words name.toList, w ≠ [] ∧ HasNoBoundary w)
      ∧ (words name.toList).flatten = name.toList.filter Char.isAlphanum
      ∧ snakeCase (snakeCase name) = snakeCase name := by
  refine ⟨(rewrittenWords_eq _).symm,
    fun w hw => ⟨ne_nil_of_mem_words w hw, hasNoBoundary_of_mem_words hw⟩, flatten_words _, ?_⟩
  by_cases hempty : snakeCase name = ""
  · rw [hempty]
    decide
  · exact (isSnakeName_snakeCase hempty).snakeCase_eq

example : ["HTTPValidationError", "userId2Go", "X-Request-ID", "ключ v2", "__"].map
    (fun name => (words name.toList).map String.ofList)
    = [["HTTP", "Validation", "Error"], ["user", "Id2", "Go"], ["X", "Request", "ID"], ["v2"], []] := by
  decide

end ApiClientGen.Naming
