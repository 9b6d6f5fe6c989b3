/-
Words of names that were put together.

A name in capitals is cut into words again when it is spelled in small letters, and not always
where it was put together: words of a single letter run into one.  Characters are one word if and
only if none of them begins a word behind another one.  So the spelling in small letters of a name
in capitals is a text of letters only in two ways, as one word or as single letters.
-/
import ApiClientGen.Proofs.Naming.SnakeNames
import ApiClientGen.Proofs.Number.Words

namespace ApiClientGen.Naming

/-! ### Letters -/

/-- A letter or a digit in capitals and in small letters. -/
theorem letterCase {c : Char} (h : c.isAlphanum = true) :
    c.toUpper.toLower = c.toLower ∧ c.toUpper.isDigit = c.isDigit ∧ c.toLower.isDigit = c.isDigit
      ∧ c.toLower.isAlpha = c.isAlpha
      ∧ (c.isAlpha = true → c.toUpper.isUpper = true ∧ c.toLower.isLower = true) := by
  have hword : Number.isWordChar c = true := by simp [Number.isWordChar, h]
  exact Number.of_ascii (P := fun c => c.isAlphanum = true →
      c.toUpper.toLower = c.toLower ∧ c.toUpper.isDigit = c.isDigit ∧ c.toLower.isDigit = c.isDigit
        ∧ c.toLower.isAlpha = c.isAlpha
        ∧ (c.isAlpha = true → c.toUpper.isUpper = true ∧ c.toLower.isLower = true))
    (by decide) (Nat.lt_succ_of_lt (Number.toNat_lt_of_isWordChar hword).2) h

theorem isAlphanum_of_isAlpha {c : Char} (h : c.isAlpha = true) : c.isAlphanum = true := by
  simp [Char.isAlphanum, h]

/-- A capital letter is neither a small one nor a digit. -/
theorem isUpper_spec {c : Char} (h : c.isUpper = true) : c.isLower = false ∧ c.isDigit = false := by
  simp only [Char.isUpper, Char.isLower, Char.isDigit, ge_iff_le, UInt32.le_iff_toNat_le,
    decide_eq_true_eq, Bool.and_eq_false_iff, decide_eq_false_iff_not] at h ⊢
  simp at h ⊢
  omega

/-- A capital letter begins a word behind a small one, and before a small one behind any letter. -/
theorem startsWord_capital {a b : Char} (hb : b.isUpper = true) {after : Option Char}
    (h : a.isLower = true ∨ a.isAlpha = true ∧ ∃ c, after = some c ∧ c.isLower = true) :
    startsWord a b after = true := by
  rcases h with hlower | ⟨halpha, c, rfl, hc⟩
  · simp [startsWord, hb, hlower]
  · rcases (by simpa [Char.isAlpha] using halpha : a.isUpper = true ∨ a.isLower = true)
      with hupper | hlower
    · simp [startsWord, hb, hupper, hc]
    · simp [startsWord, hb, hlower]

/-! ### Where characters are cut -/

theorem words_ne_nil {c : Char} (hc : isWordChar c = true) (s : List Char) : words (c :: s) ≠ [] := by
  intro hnil
  have hflat := flatten_words (c :: s)
  rw [hnil, List.filter_cons_of_pos hc] at hflat
  cases hflat

/-- A character in front makes no fewer words. -/
theorem length_words_le (c : Char) (s : List Char) : (words s).length ≤ (words (c :: s)).length := by
  by_cases hc : isWordChar c = true
  · cases s with
    | nil => simp [words]
    | cons d s =>
        rw [words.eq_2 c, if_pos hc, List.head?_cons]
        dsimp only
        split
        · cases hwords : words (d :: s) with
          | nil => simp
          | cons w ws => simp [consFirst]
        · simp
  · rw [words, if_neg hc]

/-- **One word is cut nowhere**: no character of it begins a word behind the one before. -/
theorem startsWord_of_length_words {a b : Char} {before after : List Char}
    (hb : isWordChar b = true) (ha : isWordChar a = true)
    (hone : (words (before ++ a :: b :: after)).length = 1) :
    startsWord a b after.head? = false := by
  induction before with
  | nil =>
      by_contra hstarts
      have hcut : words (a :: b :: after) = [a] :: words (b :: after) := by
        rw [words, if_pos ha, List.head?_cons]
        simp [Bool.eq_true_of_not_eq_false hstarts]
      have hmore := List.length_pos_iff.mpr (words_ne_nil hb after)
      rw [List.nil_append, hcut, List.length_cons] at hone
      omega
  | cons c before ih =>
      refine ih (Nat.le_antisymm ?_ ?_)
      · rw [← hone]
        exact length_words_le c _
      · have hne : words (before ++ a :: b :: after) ≠ [] := by
          intro hnil
          have hflat := flatten_words (before ++ a :: b :: after)
          rw [hnil, List.filter_append, List.filter_cons_of_pos ha] at hflat
          simp at hflat
        exact List.length_pos_iff.mpr hne

/-- Characters that are cut nowhere are one word. -/
theorem words_eq_singleton {s : List Char} (hne : s ≠ []) (hs : ∀ c ∈ s, isWordChar c = true)
    (huncut : ∀ before a b after, s = before ++ a :: b :: after →
      startsWord a b after.head? = false) : words s = [s] := by
  induction s with
  | nil => exact absurd rfl hne
  | cons c s ih =>
      obtain ⟨hc, hs⟩ := List.forall_mem_cons.mp hs
      cases s with
      | nil => simp [words, hc]
      | cons d s =>
          have hd := hs d (by simp)
          have hrest := ih (by simp) hs fun before a b after heq =>
            huncut (c :: before) a b after (by rw [heq]; rfl)
          rw [words, if_pos hc, List.head?_cons, hrest]
          simp [hd, huncut [] c d s rfl, consFirst]

/-! ### Words put together -/

/-- A word of letters, which is not empty. -/
def IsLetterWord (w : List Char) : Prop := w ≠ [] ∧ ∀ c ∈ w, c.isAlpha = true

/-- A word of letters in capitals ends in a letter, which is small if there is another one before. -/
theorem IsLetterWord.exists_last {w : List Char} (h : IsLetterWord w) :
    ∃ init a, capitalized w = init ++ [a] ∧ a.isAlpha = true
      ∧ (w.length ≠ 1 → a.isLower = true) := by
  obtain ⟨hne, hletters⟩ := h
  have hcase := fun c hc => letterCase (isAlphanum_of_isAlpha (hletters c hc))
  cases w with
  | nil => exact absurd rfl hne
  | cons c rest =>
      obtain ⟨-, -, -, -, hcapital⟩ := hcase c (by simp)
      rcases List.eq_nil_or_concat rest with rfl | ⟨init, d, rfl⟩
      · exact ⟨[], c.toUpper, rfl, by simp [Char.isAlpha, (hcapital (hletters c (by simp))).1],
          fun hlong => absurd rfl hlong⟩
      · have hlower := ((hcase d (by simp)).2.2.2.2 (hletters d (by simp))).2
        exact ⟨c.toUpper :: small init, d.toLower, by simp [capitalized, small],
          by simp [Char.isAlpha, hlower], fun _ => hlower⟩

/-- A word of letters in capitals begins with a capital letter, and with a small one behind it. -/
theorem IsLetterWord.exists_first {w : List Char} (h : IsLetterWord w) :
    ∃ b rest, capitalized w = b :: rest ∧ b.isUpper = true
      ∧ (w.length ≠ 1 → ∃ c, rest.head? = some c ∧ c.isLower = true) := by
  obtain ⟨hne, hletters⟩ := h
  have hcase := fun c hc => letterCase (isAlphanum_of_isAlpha (hletters c hc))
  cases w with
  | nil => exact absurd rfl hne
  | cons c rest =>
      refine ⟨c.toUpper, small rest, rfl, ((hcase c (by simp)).2.2.2.2 (hletters c (by simp))).1, ?_⟩
      intro hlong
      cases rest with
      | nil => exact absurd rfl hlong
      | cons d rest =>
          exact ⟨d.toLower, rfl, ((hcase d (by simp)).2.2.2.2 (hletters d (by simp))).2⟩

/-- Two words of letters that run into one are single letters. -/
theorem length_eq_one_of_joined {before after : List (List Char)} {u v : List Char}
    (hu : IsLetterWord u) (hv : IsLetterWord v)
    (hone : (words ((before ++ u :: v :: after).flatMap capitalized)).length = 1) :
    u.length = 1 ∧ v.length = 1 := by
  obtain ⟨init, a, hlast, ha, hsmall⟩ := hu.exists_last
  obtain ⟨b, rest, hfirst, hb, hsecond⟩ := hv.exists_first
  have hsplit : (before ++ u :: v :: after).flatMap capitalized
      = (before.flatMap capitalized ++ init) ++ a :: b :: (rest ++ after.flatMap capitalized) := by
    simp [hlast, hfirst]
  rw [hsplit] at hone
  have huncut := startsWord_of_length_words (isAlphanum_of_isUpper hb) (isAlphanum_of_isAlpha ha) hone
  constructor
  · by_contra hlong
    rw [startsWord_capital hb (Or.inl (hsmall hlong))] at huncut
    cases huncut
  · by_contra hlong
    obtain ⟨c, hc, hlower⟩ := hsecond hlong
    have hhead : (rest ++ after.flatMap capitalized).head? = some c := by
      rw [List.head?_append, hc]
      rfl
    rw [startsWord_capital hb (Or.inr ⟨ha, c, hhead, hlower⟩)] at huncut
    cases huncut

/-- Words of letters that run into one are a single word, or all of them single letters. -/
theorem single_or_letters {ws : List (List Char)} (hws : ∀ w ∈ ws, IsLetterWord w)
    (hone : (words (ws.flatMap capitalized)).length = 1) :
    ws.length = 1 ∨ ∀ w ∈ ws, w.length = 1 := by
  by_cases hsingle : ws.length = 1
  · exact Or.inl hsingle
  refine Or.inr fun w hw => ?_
  obtain ⟨before, after, rfl⟩ := List.append_of_mem hw
  cases after with
  | cons v after =>
      exact (length_eq_one_of_joined (hws w (by simp)) (hws v (by simp)) hone).1
  | nil =>
      rcases List.eq_nil_or_concat before with rfl | ⟨before, u, rfl⟩
      · exact absurd rfl hsingle
      · rw [List.concat_eq_append, List.append_assoc, List.singleton_append] at hone
        exact (length_eq_one_of_joined (hws u (by simp)) (hws w (by simp)) hone).2

/-! ### Texts of letters -/

/-- A name spells a text out: as one word, or letter by letter. -/
def SpellsOut (name : String) (text : List Char) : Prop :=
  (words name.toList).map small = [text] ∨ (words name.toList).map small = text.map fun c => [c]

instance (name : String) (text : List Char) : Decidable (SpellsOut name text) :=
  inferInstanceAs (Decidable (_ ∨ _))

theorem small_capitalized {w : List Char} (h : ∀ c ∈ w, c.isAlphanum = true) :
    small (capitalized w) = small w := by
  cases w with
  | nil => rfl
  | cons c w =>
      obtain ⟨hc, hw⟩ := List.forall_mem_cons.mp h
      have hrest : small (small w) = small w := by
        refine (List.map_congr_left fun d hd => ?_).trans (List.map_id (small w))
        obtain ⟨e, he, rfl⟩ := List.mem_map.mp hd
        have hupper := isUpper_eq_false_of_isSmallChar (isSmallChar_toLower (hw e he))
        unfold Char.toLower at hupper ⊢
        exact dif_neg (by simpa [Char.isUpper] using hupper)
      rw [capitalized, small, List.map_cons, (letterCase hc).1]
      exact congrArg (c.toLower :: ·) hrest

/-- The words of a name in capitals have the letters and digits of the name, in small letters. -/
theorem small_pascalCase (name : String) :
    small (pascalCase name).toList = ((words name.toList).map small).flatten := by
  have halnum : ∀ w ∈ words name.toList, ∀ c ∈ w, c.isAlphanum = true :=
    fun w hw c hc => isAlphanum_of_mem_words hw hc
  simp only [pascalCase, String.toList_ofList]
  generalize words name.toList = ws at halnum
  induction ws with
  | nil => rfl
  | cons w ws ih =>
      obtain ⟨hw, hws⟩ := List.forall_mem_cons.mp halnum
      have happend : small (capitalized w ++ ws.flatMap capitalized)
          = small (capitalized w) ++ small (ws.flatMap capitalized) := List.map_append
      rw [List.flatMap_cons, happend, small_capitalized hw, ih hws]
      rfl

/-- The words of a name in small letters are one text of letters only if there is one word. -/
theorem words_eq_of_snakeCase {name text : String} (hletters : ∀ c ∈ text.toList, c.isAlpha = true)
    (hne : text ≠ "") (h : snakeCase name = text) :
    ∃ w, words name.toList = [w] ∧ small w = text.toList := by
  have hlist : List.intercalate ['_'] ((words name.toList).map small) = text.toList := by
    rw [← h]
    simp [snakeCase]
  generalize words name.toList = ws at hlist
  rcases ws with _ | ⟨w, _ | ⟨v, ws⟩⟩
  · exact absurd (String.toList_inj.mp hlist.symm) hne
  · rw [List.map_singleton, List.intercalate_singleton] at hlist
    exact ⟨w, rfl, hlist⟩
  · rw [List.map_cons, List.map_cons, List.intercalate_cons_cons] at hlist
    have hline : '_' ∈ text.toList := by
      rw [← hlist]
      simp
    exact absurd (hletters '_' hline) (by decide)

/-- A name in capitals has the letters of the text that it spells out. -/
theorem SpellsOut.small_pascalCase {name : String} {text : List Char} (h : SpellsOut name text) :
    small (pascalCase name).toList = text := by
  rw [Naming.small_pascalCase]
  rcases h with h | h
  · rw [h, List.flatten_singleton]
  · rw [h, ← List.flatMap_def, List.flatMap_singleton']

/-- A name in capitals that spells a text of letters out is one word. -/
theorem words_pascalCase_of_spellsOut {name : String} {text : List Char}
    (hletters : ∀ c ∈ text, c.isAlpha = true) (hne : text ≠ []) (h : SpellsOut name text) :
    words (pascalCase name).toList = [(pascalCase name).toList] := by
  have hsome : (pascalCase name).toList ≠ [] := by
    intro hnil
    have hsmall := h.small_pascalCase
    rw [hnil] at hsmall
    exact hne hsmall.symm
  refine words_eq_singleton hsome (fun c => isWordChar_of_mem_pascalCase) fun before a b after hsplit => ?_
  -- A capital letter stands in front of one word only, and single letters are all capitals.
  rcases h with h | h
  · obtain ⟨w, hw, rfl⟩ := List.map_eq_singleton_iff.mp h
    have hcapital : (pascalCase name).toList = capitalized w := by simp [pascalCase, hw]
    have hword := fun c hc => isAlphanum_of_mem_words (s := name.toList) (w := w) (by simp [hw]) (c := c) hc
    cases w with
    | nil => exact absurd rfl hne
    | cons c w =>
        have hb : b ∈ small w := by
          have heq : c.toUpper :: small w = before ++ a :: b :: after :=
            (hcapital.symm.trans hsplit)
          cases before with
          | nil =>
              rw [(List.cons.inj heq).2]
              simp
          | cons d before =>
              rw [(List.cons.inj heq).2]
              simp
        obtain ⟨d, hd, rfl⟩ := List.mem_map.mp hb
        have hlow := isSmallChar_toLower (hword d (List.mem_cons_of_mem c hd))
        simp [startsWord, isUpper_eq_false_of_isSmallChar hlow]
  · have hupper : ∀ c ∈ (pascalCase name).toList, c.isUpper = true := by
      intro c hc
      rw [pascalCase, String.toList_ofList] at hc
      obtain ⟨w, hw, hc⟩ := List.mem_flatMap.mp hc
      have hsingle : small w ∈ text.map fun c => [c] := h ▸ List.mem_map_of_mem hw
      obtain ⟨d, hd, heq⟩ := List.mem_map.mp hsingle
      obtain ⟨e, rfl, rfl⟩ := List.map_eq_singleton_iff.mp heq.symm
      obtain ⟨-, -, -, halpha, hcapital⟩ :=
        letterCase (isAlphanum_of_mem_words hw (c := e) (by simp))
      obtain rfl : c = e.toUpper := by simpa [capitalized, small] using hc
      exact (hcapital (halpha ▸ hletters _ hd)).1
    obtain ⟨haLow, haDigit⟩ := isUpper_spec (hupper a (by simp [hsplit]))
    have hnext : (after.head?.map Char.isLower).getD false = false := by
      cases after with
      | nil => rfl
      | cons c after => exact (isUpper_spec (hupper c (by simp [hsplit]))).1
    simp [startsWord, haLow, haDigit, hnext]

/--
**A name in capitals that is spelled in small letters** is a text of letters if and only if the
name spells the text out, as one word or letter by letter.
-/
theorem snakeCase_pascalCase_eq_iff {name text : String}
    (hletters : ∀ c ∈ text.toList, c.isAlpha = true) (hne : text ≠ "") :
    snakeCase (pascalCase name) = text ↔ SpellsOut name text.toList := by
  have hne' : text.toList ≠ [] := fun hnil => hne (String.toList_inj.mp hnil)
  constructor
  · intro h
    obtain ⟨p, hp, hsmall⟩ := words_eq_of_snakeCase hletters hne h
    have hwhole : p = (pascalCase name).toList := by
      have hflat := flatten_words (pascalCase name).toList
      rwa [hp, List.flatten_singleton,
        List.filter_eq_self.mpr fun c => isWordChar_of_mem_pascalCase] at hflat
    have htext : ((words name.toList).map small).flatten = text.toList := by
      rw [← small_pascalCase, ← hwhole, hsmall]
    have hwords : ∀ w ∈ words name.toList, IsLetterWord w := by
      intro w hw
      refine ⟨ne_nil_of_mem_words w hw, fun c hc => ?_⟩
      have hmem : c.toLower ∈ text.toList := by
        rw [← htext]
        exact List.mem_flatten.mpr ⟨small w, List.mem_map_of_mem hw, List.mem_map_of_mem hc⟩
      rw [← (letterCase (isAlphanum_of_mem_words hw hc)).2.2.2.1]
      exact hletters _ hmem
    have hone : (words ((words name.toList).flatMap capitalized)).length = 1 := by
      have heq : (words name.toList).flatMap capitalized = (pascalCase name).toList := by
        simp [pascalCase]
      rw [heq, hp]
      rfl
    rcases single_or_letters hwords hone with hsingle | hsingles
    · obtain ⟨w, hw⟩ := List.length_eq_one_iff.mp hsingle
      rw [hw] at htext
      exact Or.inl (by simpa [hw] using htext)
    · refine Or.inr ?_
      rw [← htext]
      clear hone hp hwhole htext hwords
      generalize words name.toList = ws at hsingles
      induction ws with
      | nil => rfl
      | cons w ws ih =>
          obtain ⟨hw, hws⟩ := List.forall_mem_cons.mp hsingles
          obtain ⟨c, rfl⟩ := List.length_eq_one_iff.mp hw
          simp only [List.map_cons, List.flatten_cons, List.map_append]
          rw [← ih hws]
          rfl
  · intro h
    have hone := words_pascalCase_of_spellsOut hletters hne' h
    rw [snakeCase, hone, List.map_singleton, List.intercalate_singleton, h.small_pascalCase,
      String.ofList_toList]

end ApiClientGen.Naming
