/-
Texts read back.

A reader goes over a text four times: to see that nothing stands behind it, to check its escapes,
to put in the characters for their numbers, once for each of the two marks, and to read the other
escapes.  The third pass is the delicate one.  It knows an escaped mark from a number by the
backslashes in front of it, but only up to the first number; from there on it takes every mark
for one.
-/
import ApiClientGen.Proofs.Json.QuotedTexts
import ApiClientGen.Proofs.Reference.Pointers
import ApiClientGen.Proofs.Toml.WrittenTexts

namespace ApiClientGen.Toml

open ApiClientGen.Document ApiClientGen.Number ApiClientGen.Text

/-! ### The marks of numbers -/

/-- The marks that the format has, with the lengths of the numbers behind them. -/
def longMarks : List (Char × Nat) := [('u', 4), ('U', 8)]

theorem isCodeMark_of_mem {mark : Char} {width : Nat} (h : (mark, width) ∈ longMarks) :
    isCodeMark mark = true := by
  have hall : ∀ m ∈ longMarks, isCodeMark m.1 = true := by decide
  exact hall _ h

theorem isCodeMark_of_codeMark? {c mark : Char} (h : codeMark? c = some mark) (hx : mark ≠ 'x') :
    isCodeMark mark = true := by
  obtain ⟨-, width, hwidth, -, -⟩ := codeEscape_of_codeMark? h
  have hall : ∀ m ∈ codeMarks, m.1 = 'x' ∨ isCodeMark m.1 = true := by decide
  exact (hall _ hwidth).resolve_left hx

/-- A mark is a plain character, and no letter that stands behind a backslash for another one. -/
theorem isCodeMark_spec {mark : Char} (h : isCodeMark mark = true) :
    mark ∈ ['u', 'U'] ∧ mark ≠ '\\' ∧ mark ≠ '"' ∧ mark ∉ shortLetters ∧ codeMark? mark = none
      ∧ escaped '"' mark = [mark] := by
  simp only [isCodeMark, Bool.or_eq_true, beq_iff_eq] at h
  rcases h with rfl | rfl <;> decide

/-! ### The end of a text -/

theorem splitOn_append_of_notMem {separator : Char} {w : List Char} (hw : separator ∉ w)
    {s piece : List Char} {more : List (List Char)} (hs : splitOn separator s = piece :: more) :
    splitOn separator (w ++ s) = (w ++ piece) :: more := by
  induction w with
  | nil => exact hs
  | cons c w ih =>
      simp only [List.mem_cons, not_or] at hw
      rw [List.cons_append, splitOn, if_neg (Ne.symm hw.1), ih hw.2]
      rfl

theorem splitOn_cons_of_ne {separator c : Char} (hc : c ≠ separator) (s : List Char) :
    ∃ piece more, splitOn separator s = piece :: more
      ∧ splitOn separator (c :: s) = (c :: piece) :: more := by
  obtain ⟨piece, more, hs⟩ := List.exists_cons_of_ne_nil (splitOn_ne_nil separator s)
  exact ⟨piece, more, hs, splitOn_append_of_notMem (w := [c]) (by simpa using Ne.symm hc) hs⟩

/-- The pieces between the quotes inside of a text leave it open, and the last one closes it. -/
theorem closing_fold {s p t : List Char} (h : body s = p ++ t) (hp : endsInOddRun p = false)
    {c : Closing} (hc : c.closed = false) :
    ∃ c', (splitOn '"' (t ++ ['"'])).foldlM (Closing.step false) c = .ok c' := by
  induction hlength : t.length using Nat.strong_induction_on generalizing t p with
  | _ n ih =>
      by_cases hquote : '"' ∈ t
      · obtain ⟨first, rest, rfl, hfirst⟩ := List.eq_append_cons_of_mem hquote
        have hodd : endsInOddRun first = true := by
          rw [← endsInOddRun_append hp]
          exact endsInOddRun_before_quote (q := rest) (by rw [h, List.append_assoc])
        have hne : first ≠ [] := by
          rintro rfl
          cases hodd
        have hstep : Closing.step false c first = .ok c := by
          unfold Closing.step
          rw [if_neg hne, if_pos hodd]
        have hp' : endsInOddRun (p ++ (first ++ ['"'])) = false := by
          rw [← List.append_assoc, endsInOddRun_concat]
          rfl
        have hbody : body s = (p ++ (first ++ ['"'])) ++ rest := by
          rw [h]
          simp
        rw [List.append_assoc, List.cons_append, splitOn_append_cons hfirst, List.foldlM_cons, hstep]
        refine ih rest.length ?_ hbody hp' rfl
        rw [← hlength, List.length_append, List.length_cons]
        omega
      · rw [splitOn_append_cons hquote []]
        have hodd : endsInOddRun t = false := by
          rw [← endsInOddRun_append hp, ← h]
          exact endsInOddRun_body s
        by_cases hempty : t = []
        · subst hempty
          exact ⟨_, rfl⟩
        · have hstep : Closing.step false c t = .ok { c with closed := true } := by
            unfold Closing.step
            rw [if_neg hempty, if_neg (by simp [hodd]), if_neg (by simp [hc])]
            rfl
          rw [List.foldlM_cons, hstep]
          exact ⟨_, rfl⟩

theorem checkClosed_body (s : List Char) : checkClosed '"' (body s ++ ['"']) = .ok () := by
  obtain ⟨c', hfold⟩ := closing_fold (p := []) (t := body s) rfl rfl (c := {}) rfl
  have hhead := head?_body_ne_quote s
  unfold checkClosed
  cases hbody : body s with
  | nil => rfl
  | cons c t =>
      rw [hbody] at hfold hhead
      have hne : c ≠ '"' := fun heq => hhead (congrArg some heq)
      obtain ⟨first, more, -, hpieces⟩ := splitOn_cons_of_ne hne (t ++ ['"'])
      rw [List.cons_append, hpieces] at hfold ⊢
      dsimp only
      rw [hfold]
      rfl

/-! ### Escapes -/

/-- Checks the escapes behind some characters that belong to no escape. -/
def checkFrom (s : List Char) : Except Fault Unit := checkEscapes false ((splitOn '\\' s).drop 1)

theorem checkFrom_append {w : List Char} (hw : '\\' ∉ w) (s : List Char) :
    checkFrom (w ++ s) = checkFrom s := by
  obtain ⟨piece, more, hs⟩ := List.exists_cons_of_ne_nil (splitOn_ne_nil '\\' s)
  rw [checkFrom, checkFrom, splitOn_append_of_notMem hw hs, hs]
  rfl

theorem checkFrom_letter {l : Char} (hl : ((escapeOf? l).isSome || isCodeMark l) = true)
    (hbackslash : l ≠ '\\') (s : List Char) : checkFrom ('\\' :: l :: s) = checkFrom s := by
  obtain ⟨piece, more, hs, hcons⟩ := splitOn_cons_of_ne hbackslash s
  rw [checkFrom, checkFrom, splitOn, if_pos rfl, hcons, hs, List.drop_succ_cons, List.drop_zero,
    List.drop_succ_cons, List.drop_zero, checkEscapes, if_pos (by simp [hl])]

/-- Behind two backslashes anything may stand. -/
theorem checkFrom_backslash (s : List Char) : checkFrom ('\\' :: '\\' :: s) = checkFrom s := by
  obtain ⟨piece, more, hs⟩ := List.exists_cons_of_ne_nil (splitOn_ne_nil '\\' s)
  rw [checkFrom, checkFrom, splitOn, if_pos rfl, splitOn, if_pos rfl, hs, List.drop_succ_cons,
    List.drop_zero, List.drop_succ_cons, List.drop_zero, checkEscapes]
  cases piece with
  | nil => rw [checkEscapes]; rfl
  | cons c piece => rw [checkEscapes, if_pos (by simp)]

theorem checkFrom_body {s : List Char} (hs : ∀ c ∈ s, codeMark? c ≠ some 'x') (rest : List Char) :
    checkFrom (body s ++ rest) = checkFrom rest := by
  induction s with
  | nil => rfl
  | cons c s ih =>
      obtain ⟨hc, hs⟩ := List.forall_mem_cons.mp hs
      have hbody : body (c :: s) ++ rest = escaped '"' c ++ (body s ++ rest) := by
        rw [← List.append_assoc]
        rfl
      rw [hbody, ← ih hs]
      have hform := form_escaped c
      generalize escaped '"' c = w at hform
      cases hform with
      | backslash => exact checkFrom_backslash _
      | @letter c l hletter hl =>
          exact checkFrom_letter (by simp [hletter]) (shortLetter_spec hl).1 _
      | plain hprintable hbackslash =>
          exact checkFrom_append (by simpa using Ne.symm hbackslash) _
      | @code c mark hmark =>
          obtain ⟨tail, heq, htail⟩ := exists_codeTail hmark
          have hcode := isCodeMark_of_codeMark? hmark fun hx => hc (hx ▸ hmark)
          obtain ⟨hbackslash, htail⟩ : '\\' ≠ mark ∧ '\\' ∉ tail := by
            simpa using notMem_of_isAlphanum htail rfl
          rw [heq, List.cons_append, List.cons_append,
            checkFrom_letter (by simp [hcode]) (Ne.symm hbackslash),
            checkFrom_append htail]

/-! ### Characters for their numbers -/

/-- A number that begins with the digit of half a pair goes on like that of a character. -/
theorem second_le_seven {mark c : Char} {width d : Nat} {ds : List Nat}
    (hwidth : (mark, width) ∈ longMarks) (hlength : (13 :: d :: ds).length = width)
    (hsmall : ∀ e ∈ 13 :: d :: ds, e < 16) (hnumber : ofDigits 16 (13 :: d :: ds) = c.toNat) :
    d ≤ 7 := by
  have hcode := Json.isCharCode c
  have hlimit := toNat_lt_limit c
  rw [← hnumber] at hcode hlimit
  simp only [longMarks, List.mem_cons, Prod.mk.injEq, List.not_mem_nil, or_false] at hwidth
  rcases hwidth with ⟨-, rfl⟩ | ⟨-, rfl⟩
  · have htwo : ds.length = 2 := by
      rw [List.length_cons, List.length_cons] at hlength
      omega
    obtain ⟨a, b, rfl⟩ := List.length_eq_two.mp htwo
    simp only [ofDigits, List.foldl_cons, List.foldl_nil] at hcode
    simp only [List.forall_mem_cons] at hsmall
    omega
  · have hsix : ds.length = 6 := by
      rw [List.length_cons, List.length_cons] at hlength
      omega
    obtain ⟨a, ds, rfl⟩ := List.exists_cons_of_length_eq_add_one hsix
    have hfive : ds.length = 5 := Nat.succ.inj hsix
    obtain ⟨b, ds, rfl⟩ := List.exists_cons_of_length_eq_add_one hfive
    have hfour : ds.length = 4 := Nat.succ.inj hfive
    obtain ⟨e, ds, rfl⟩ := List.exists_cons_of_length_eq_add_one hfour
    obtain ⟨f, g, h, rfl⟩ := List.length_eq_three.mp (Nat.succ.inj hfour)
    simp only [ofDigits, List.foldl_cons, List.foldl_nil] at hlimit
    omega

/-- Digits are in small letters already, and each has its value. -/
theorem digits_spec {ds : List Nat} (h : ∀ d ∈ ds, d < 16) :
    lowered (ds.map Nat.digitChar) = ds.map Nat.digitChar
      ∧ (ds.map Nat.digitChar).all (fun c => c.isDigit || ('a' ≤ c && c ≤ 'f')) = true
      ∧ (ds.map Nat.digitChar).filterMap digitValue? = ds := by
  have hdigit : ∀ d < 16, (Nat.digitChar d).toLower = Nat.digitChar d
      ∧ ((Nat.digitChar d).isDigit || ('a' ≤ Nat.digitChar d && Nat.digitChar d ≤ 'f')) = true := by
    decide
  refine ⟨?_, ?_, ?_⟩
  · rw [lowered, List.map_map]
    exact List.map_congr_left fun d hd => (hdigit d (h d hd)).1
  · rw [List.all_map, List.all_eq_true]
    exact fun d hd => (hdigit d (h d hd)).2
  · calc (ds.map Nat.digitChar).filterMap digitValue?
        = ds.filterMap some := by
          rw [List.filterMap_map]
          exact List.filterMap_congr fun d hd => (Json.digitValue?_digitChar (h d hd)).1
      _ = ds := List.filterMap_some

/-- The digits of the number of a character lead back to it. -/
theorem characterOf_hexDigits {mark c : Char} {width : Nat}
    (hwidth : (mark, width) ∈ longMarks) (h : c.toNat < 16 ^ width) :
    characterOf (hexDigits width c.toNat) = .ok c := by
  have hwide : 2 ≤ width := by
    have hall : ∀ m ∈ longMarks, 2 ≤ m.2 := by decide
    exact hall _ hwidth
  obtain ⟨ds, hds, hlength, hsmall, hnumber⟩ := exists_hexDigits (by omega) h
  obtain ⟨hlowered, hall, hvalues⟩ := digits_spec hsmall
  have hvalid : c.toNat.isValidChar := c.valid
  have hchar : Char.ofNatAux c.toNat hvalid = c := by
    have hsame := Char.ofNat_toNat c
    rwa [Char.ofNat, dif_pos hvalid] at hsame
  have hlimit := toNat_lt_limit c
  obtain ⟨a, b, rest, rfl⟩ : ∃ a b rest, ds = a :: b :: rest := by
    match ds, hlength with
    | a :: b :: rest, _ => exact ⟨a, b, rest, rfl⟩
    | [_], hlength => simp at hlength; omega
    | [], hlength => simp at hlength; omega
  have hsecond : Nat.digitChar a = 'd' → ('0' ≤ Nat.digitChar b && Nat.digitChar b ≤ '7') = true := by
    intro hd
    have hfirst : ∀ d < 16, Nat.digitChar d = 'd' → d = 13 := by decide
    have hseven : ∀ d ≤ 7, ('0' ≤ Nat.digitChar d && Nat.digitChar d ≤ '7') = true := by decide
    obtain rfl := hfirst a (hsmall a (by simp)) hd
    exact hseven b (second_le_seven hwidth hlength hsmall hnumber)
  unfold characterOf
  dsimp only
  rw [hds, hlowered, hall, hvalues, hnumber]
  rw [List.map_cons, List.map_cons, List.head?_cons, List.getElem?_cons_succ, List.getElem?_cons_zero]
  dsimp only
  by_cases hd : Nat.digitChar a = 'd'
  · rw [if_pos hd, hsecond hd, if_neg (by decide), if_neg (by decide), if_neg (by omega),
      dif_pos hvalid, hchar]
    rfl
  · rw [if_neg hd, if_neg (by decide), if_neg (by omega), dif_pos hvalid, hchar]
    rfl

/-! ### Putting characters in -/

section Passes

variable {mark : Char} {width : Nat} {left : List Char} {tracked : Bool} {done current s : List Char}

/--
Puts characters into the rest of a text.  The pass is done with some characters and is at a piece
with others; until the first number it keeps track of whether a mark is escaped.
-/
def putFrom (mark : Char) (width : Nat) (tracked : Bool) (done current s : List Char) :
    Except Fault (List Char) :=
  match splitOnPair '\\' mark s with
  | [] => .ok (done ++ current)
  | piece :: more =>
    putCharacters mark width (tracked && endsInOddRun (current ++ piece)) (done ++ (current ++ piece)) more

theorem withCharacters_eq_putFrom (mark : Char) (width : Nat) (s : List Char) :
    withCharacters mark width s = putFrom mark width true [] [] s := by
  obtain ⟨piece, more, hs⟩ := List.exists_cons_of_ne_nil (splitOnPair_ne_nil '\\' mark s)
  unfold withCharacters putFrom
  rw [hs]
  rfl

/-- A character that is not the backslash of a mark goes to the piece. -/
theorem putFrom_cons {c : Char} (h : ¬ (c = '\\' ∧ s.head? = some mark)) :
    putFrom mark width tracked done current (c :: s)
      = putFrom mark width tracked done (current ++ [c]) s := by
  obtain ⟨piece, more, hs, hcons⟩ := splitOnPair_cons h
  unfold putFrom
  rw [hs, hcons]
  dsimp only
  rw [List.append_assoc current [c] piece]
  rfl

/-- An escaped mark stays, and a new piece begins behind it. -/
theorem putFrom_escaped (hodd : endsInOddRun current = true) :
    putFrom mark width true done current ('\\' :: mark :: s)
      = putFrom mark width true (done ++ current ++ ['\\', mark]) [] s := by
  obtain ⟨piece, more, hs⟩ := List.exists_cons_of_ne_nil (splitOnPair_ne_nil '\\' mark s)
  have hpair : splitOnPair '\\' mark ('\\' :: mark :: s) = [] :: piece :: more := by
    rw [splitOnPair, if_pos ⟨rfl, rfl⟩, hs]
  unfold putFrom
  rw [hs, hpair]
  simp [hodd, putCharacters]

/-- The digits behind a mark become the character, and from there on nothing is tracked. -/
theorem putFrom_code {c : Char} {digits : List Char}
    (hplain : (tracked && endsInOddRun current) = false) (hlength : digits.length = width)
    (hdigits : '\\' ∉ digits) (hc : characterOf digits = .ok c) :
    putFrom mark width tracked done current ('\\' :: mark :: (digits ++ s))
      = putFrom mark width false (done ++ current ++ [c]) [] s := by
  have happend : ∀ w : List Char, '\\' ∉ w → ∃ piece more, splitOnPair '\\' mark s = piece :: more
      ∧ splitOnPair '\\' mark (w ++ s) = (w ++ piece) :: more := by
    intro w hw
    induction w with
    | nil =>
        obtain ⟨piece, more, hs⟩ := List.exists_cons_of_ne_nil (splitOnPair_ne_nil '\\' mark s)
        exact ⟨piece, more, hs, hs⟩
    | cons d w ih =>
        simp only [List.mem_cons, not_or] at hw
        obtain ⟨piece, more, hs, hw'⟩ := ih hw.2
        obtain ⟨piece', more', hpiece, hcons⟩ := splitOnPair_cons (c := d) (a := '\\') (b := mark)
          (s := w ++ s) (fun h => hw.1 h.1.symm)
        rw [hw'] at hpiece
        cases hpiece
        exact ⟨piece, more, hs, hcons⟩
  obtain ⟨piece, more, hs, hrest⟩ := happend digits hdigits
  have hpair : splitOnPair '\\' mark ('\\' :: mark :: (digits ++ s)) = [] :: (digits ++ piece) :: more := by
    rw [splitOnPair, if_pos ⟨rfl, rfl⟩, hrest]
  unfold putFrom
  rw [hs, hpair]
  simp only [List.append_nil, hplain]
  rw [putCharacters, List.take_left' hlength, List.drop_left' hlength, hc]
  simp [Bind.bind, Except.bind]

/-! ### Passes over the words of a text -/

/-- A pass over one mark changes only the words with this mark. -/
theorem word_of_ne {c : Char} (hc : codeMark? c ≠ some mark) : word (mark :: left) c = word left c := by
  unfold word
  cases hcode : codeMark? c with
  | none => rfl
  | some m =>
      have hne : m ≠ mark := fun heq => hc (heq ▸ hcode)
      simp [hne]

theorem word_backslash (marks : List Char) : word marks '\\' = ['\\', '\\'] := by
  have hnone : codeMark? '\\' = none := by decide
  rw [word, hnone]
  rfl

theorem word_mark (marks : List Char) (hmark : isCodeMark mark = true) :
    codeMark? mark = none ∧ word marks mark = [mark] := by
  obtain ⟨-, -, -, -, hnone, hword⟩ := isCodeMark_spec hmark
  refine ⟨hnone, ?_⟩
  rw [word, hnone]
  exact hword

theorem ne_backslash_of_codeMark? {c : Char} (h : codeMark? c = some mark) : c ≠ '\\' := by
  rintro rfl
  have hnone : codeMark? '\\' = none := by decide
  rw [hnone] at h
  cases h

/-- A word stands for itself, or it is a backslash with something behind it. -/
theorem word_cases (marks : List Char) (c : Char) :
    (c = '\\' ∧ word marks c = ['\\', '\\']) ∨ (c ≠ '\\' ∧ word marks c = [c])
      ∨ (c ≠ '\\' ∧ ∃ l tail, word marks c = '\\' :: l :: tail ∧ '\\' ∉ l :: tail
        ∧ (l ∈ shortLetters ∨ codeMark? c = some l)) := by
  unfold word
  cases hcode : codeMark? c with
  | some mark =>
      have hne := ne_backslash_of_codeMark? hcode
      by_cases hmem : mark ∈ marks
      · obtain ⟨tail, heq, htail⟩ := exists_codeTail hcode
        refine Or.inr (Or.inr ⟨hne, mark, tail, ?_, notMem_of_isAlphanum htail rfl, Or.inr rfl⟩)
        simp only [if_pos hmem, heq]
      · exact Or.inr (Or.inl ⟨hne, by simp only [if_neg hmem]⟩)
  | none =>
      have hform := form_escaped c
      dsimp only
      generalize escaped '"' c = w at hform
      cases hform with
      | backslash => exact Or.inl ⟨rfl, rfl⟩
      | @letter c l hletter hl =>
          obtain ⟨hbackslash, -, -, -, -, hne, -⟩ := shortLetter_spec hl
          refine Or.inr (Or.inr ⟨fun heq => hne (heq ▸ hletter), l, [], rfl, ?_, Or.inl hl⟩)
          simpa using Ne.symm hbackslash
      | plain hprintable hbackslash => exact Or.inr (Or.inl ⟨hbackslash, rfl⟩)
      | code hmark =>
          rw [hcode] at hmark
          cases hmark

/-- Only a letter that stands in the text stands first in the words of it. -/
theorem head?_words {marks : List Char} {c : Char} {rest : List Char} (hc : c ≠ '\\')
    (hrest : rest.head? ≠ some c) (h : (s.flatMap (word marks) ++ rest).head? = some c) :
    s.head? = some c := by
  cases s with
  | nil => exact absurd h hrest
  | cons d s =>
      rw [List.flatMap_cons, List.append_assoc] at h
      rcases word_cases marks d with ⟨-, hword⟩ | ⟨-, hword⟩ | ⟨-, l, tail, hword, -⟩
      · rw [hword] at h
        exact absurd (Option.some.inj h).symm hc
      · rw [hword] at h
        exact h
      · rw [hword] at h
        exact absurd (Option.some.inj h).symm hc

theorem putFrom_append {w : List Char} (hw : hasPair '\\' mark (w ++ s.take 1) = false) :
    putFrom mark width tracked done current (w ++ s)
      = putFrom mark width tracked done (current ++ w) s := by
  induction w generalizing current with
  | nil => rw [List.append_nil, List.nil_append]
  | cons c w ih =>
      rw [List.cons_append, hasPair_cons, Bool.or_eq_false_iff] at hw
      have hhead : ¬ (c = '\\' ∧ (w ++ s).head? = some mark) := by
        have hsame : (w ++ s.take 1).head? = (w ++ s).head? := by
          cases w <;> cases s <;> rfl
        rw [← hsame]
        simpa using hw.1
      rw [List.cons_append, putFrom_cons hhead, ih hw.2, List.append_assoc]
      rfl

theorem endsInOddRun_word (marks : List Char) (c : Char) : endsInOddRun (word marks c) = false := by
  rcases word_cases marks c with ⟨-, hword⟩ | ⟨hne, hword⟩ | ⟨-, l, tail, hword, htail, -⟩
  · rw [hword]
    rfl
  · rw [hword]
    exact endsInOddRun_of_notMem (by simpa using Ne.symm hne)
  · rw [hword]
    exact endsInOddRun_append_of_notMem ['\\'] htail nofun

/-- No word has an escaped mark in it, or ends in front of one, unless text and mark do. -/
theorem hasPair_word {c : Char} (hmark : isCodeMark mark = true) (hc : codeMark? c ≠ some mark)
    (hnext : c = '\\' → s.head? ≠ some mark) (marks : List Char) :
    hasPair '\\' mark (word marks c ++ s.take 1) = false := by
  obtain ⟨-, hbackslash, -, hletters, -⟩ := isCodeMark_spec hmark
  have hshort : ∀ t : List Char, hasPair '\\' mark (t.take 1) = false := by
    intro t
    cases t <;> simp [hasPair]
  rcases word_cases marks c with ⟨rfl, hword⟩ | ⟨hne, hword⟩ | ⟨-, l, tail, hword, htail, hl⟩
  · have hhead : (s.take 1).head? ≠ some mark := by
      rw [List.head?_take]
      simpa using hnext rfl
    rw [hword, List.cons_append, List.cons_append, List.nil_append, hasPair_cons, hasPair_cons, hshort]
    simp [hhead, Ne.symm hbackslash]
  · rw [hword, hasPair_append_of_notMem (by simpa using Ne.symm hne), hshort]
  · have hl : l ≠ mark := by
      rintro rfl
      exact hl.elim hletters hc
    rw [hword, List.cons_append, hasPair_cons, hasPair_append_of_notMem htail, hshort]
    simp [hl]

theorem putFrom_quote :
    putFrom mark width tracked done current ['"'] = .ok (done ++ current ++ ['"']) := by
  unfold putFrom
  simp [splitOnPair, putCharacters]

variable (hwidth : (mark, width) ∈ longMarks) (hleft : mark ∉ left)

include hwidth hleft

/-- A word that is a number with the mark becomes the character. -/
theorem putFrom_codeWord {c : Char} (hc : codeMark? c = some mark)
    (hplain : (tracked && endsInOddRun current) = false) :
    putFrom mark width tracked done current (word (mark :: left) c ++ s)
      = putFrom mark width false (done ++ current ++ word left c) [] s := by
  obtain ⟨-, width', hwidth', hlt, heq⟩ := codeEscape_of_codeMark? hc
  have hsame : ∀ m ∈ longMarks, ∀ m' ∈ codeMarks, m.1 = m'.1 → m.2 = m'.2 ∧ 0 < m.2 := by decide
  obtain ⟨rfl, hpos⟩ : width = width' ∧ 0 < width := hsame _ hwidth _ hwidth' rfl
  obtain ⟨ds, hds, hlength, -⟩ := exists_hexDigits hpos hlt
  have hword : word (mark :: left) c = '\\' :: mark :: hexDigits width c.toNat := by
    rw [word, hc]
    simp only [List.mem_cons, true_or, if_true]
    exact heq
  have hchar : word left c = [c] := by
    rw [word, hc]
    exact if_neg hleft
  rw [hword, hchar, List.cons_append, List.cons_append]
  have hdigits : '\\' ∉ hexDigits width c.toNat := by
    have hne : ∀ d < 16, Nat.digitChar d ≠ '\\' := by decide
    exact fun hmem => forall_mem_hexDigits (P := fun c => c ≠ '\\') hne hpos hlt _ hmem rfl
  refine putFrom_code hplain ?_ hdigits (characterOf_hexDigits hwidth hlt)
  rw [hds, List.length_map, hlength]

/-- Behind the first number, every number is put in if no backslash stands in front of a mark. -/
theorem putFrom_words_untracked {s : List Char} (hs : hasPair '\\' mark s = false)
    (done current : List Char) :
    putFrom mark width false done current (s.flatMap (word (mark :: left)) ++ ['"'])
      = .ok (done ++ current ++ s.flatMap (word left) ++ ['"']) := by
  have hmark := isCodeMark_of_mem hwidth
  obtain ⟨-, hbackslash, hne, -⟩ := isCodeMark_spec hmark
  have hquote : ['"'].head? ≠ some mark := by simpa using Ne.symm hne
  induction s generalizing done current with
  | nil => simpa using putFrom_quote
  | cons c s ih =>
      rw [hasPair_cons, Bool.or_eq_false_iff] at hs
      rw [List.flatMap_cons, List.flatMap_cons, List.append_assoc]
      by_cases hc : codeMark? c = some mark
      · rw [putFrom_codeWord hwidth hleft hc rfl, ih hs.2]
        simp
      · have hnext : c = '\\' → (s.flatMap (word (mark :: left)) ++ ['"']).head? ≠ some mark := by
          intro heq hhead
          have hs' := head?_words hbackslash hquote hhead
          simp [heq, hs'] at hs
        rw [putFrom_append (hasPair_word hmark hc hnext _), ih hs.2, word_of_ne hc]
        simp

/-- Up to the first number, marks that are escaped are told from the others. -/
theorem putFrom_words {s : List Char} (hs : codesLast mark s = true) (done current : List Char)
    (hcurrent : endsInOddRun current = false) :
    putFrom mark width true done current (s.flatMap (word (mark :: left)) ++ ['"'])
      = .ok (done ++ current ++ s.flatMap (word left) ++ ['"']) := by
  have hmark := isCodeMark_of_mem hwidth
  obtain ⟨-, hbackslash, hne, -⟩ := isCodeMark_spec hmark
  have hquote : ['"'].head? ≠ some mark := by simpa using Ne.symm hne
  induction hlength : s.length using Nat.strong_induction_on generalizing s done current with
  | _ n ih =>
      cases s with
      | nil => simpa using putFrom_quote
      | cons c s =>
          rw [List.length_cons] at hlength
          rw [codesLast] at hs
          rw [List.flatMap_cons, List.flatMap_cons, List.append_assoc]
          by_cases hc : codeMark? c = some mark
          · rw [if_pos hc, Bool.not_eq_true'] at hs
            rw [putFrom_codeWord hwidth hleft hc (by simp [hcurrent]),
              putFrom_words_untracked hwidth hleft hs]
            simp
          rw [if_neg hc] at hs
          by_cases hescaped : c = '\\' ∧ s.head? = some mark
          · -- The second backslash and the letter behind it look like a mark, but the first one escapes it.
            obtain ⟨rfl, hhead⟩ := hescaped
            obtain ⟨rest, rfl⟩ := List.head?_eq_some_iff.mp hhead
            obtain ⟨hnone, hword⟩ := word_mark (mark :: left) hmark
            have hrest : codesLast mark rest = true := by
              rw [codesLast, if_neg (by simp [hnone])] at hs
              exact hs
            have hodd : endsInOddRun (current ++ ['\\']) = true := by
              rw [endsInOddRun_concat, hcurrent]
              rfl
            rw [List.length_cons] at hlength
            rw [List.flatMap_cons, List.flatMap_cons, word_backslash, word_backslash, hword,
              (word_mark left hmark).2]
            simp only [List.cons_append, List.nil_append, List.append_assoc]
            rw [putFrom_cons (by simpa using Ne.symm hbackslash), putFrom_escaped hodd,
              ih rest.length (by omega) hrest _ _ rfl rfl]
            simp
          · have hnext : c = '\\' → (s.flatMap (word (mark :: left)) ++ ['"']).head? ≠ some mark :=
              fun heq hhead => hescaped ⟨heq, head?_words hbackslash hquote hhead⟩
            have hcurrent' : endsInOddRun (current ++ word left c) = false := by
              rw [endsInOddRun_append hcurrent]
              exact endsInOddRun_word left c
            rw [putFrom_append (hasPair_word hmark hc hnext _), word_of_ne hc,
              ih s.length (by omega) hs _ _ hcurrent' rfl]
            simp

/-- **A pass** puts in the characters for all numbers with its mark. -/
theorem withCharacters_words {s : List Char} (hs : codesLast mark s = true) :
    withCharacters mark width ('"' :: s.flatMap (word (mark :: left)) ++ ['"'])
      = .ok ('"' :: s.flatMap (word left) ++ ['"']) := by
  rw [withCharacters_eq_putFrom, List.cons_append, putFrom_cons (by simp),
    putFrom_words hwidth hleft hs _ _ rfl]
  rfl

end Passes

/-! ### The other escapes -/

theorem unescape_cons {c : Char} (hc : c ≠ '\\') (s : List Char) :
    unescape (c :: s) = (unescape s).map (c :: ·) := by
  rw [unescape]
  · rfl
  · exact fun _ _ h _ => hc h

theorem unescape_letter {c l : Char} (h : escapeOf? l = some c) (s : List Char) :
    unescape ('\\' :: l :: s) = (unescape s).map (c :: ·) := by
  rw [unescape, h]
  rfl

theorem unescape_backslash (s : List Char) :
    unescape ('\\' :: '\\' :: s) = (unescape s).map ('\\' :: ·) := by
  rw [unescape]
  rfl

/-- A word that is no number is read as its character. -/
theorem unescape_word (c : Char) (s : List Char) :
    unescape (word [] c ++ s) = (unescape s).map (c :: ·) := by
  unfold word
  cases hcode : codeMark? c with
  | some mark => exact unescape_cons (ne_backslash_of_codeMark? hcode) s
  | none =>
      have hform := form_escaped c
      dsimp only
      generalize escaped '"' c = w at hform
      cases hform with
      | backslash => exact unescape_backslash s
      | letter hletter => exact unescape_letter hletter s
      | plain hprintable hbackslash => exact unescape_cons hbackslash s
      | code hmark =>
          rw [hcode] at hmark
          cases hmark

theorem unescape_words (s : List Char) :
    unescape (s.flatMap (word []) ++ ['"']) = .ok (s ++ ['"']) := by
  induction s with
  | nil => rfl
  | cons c s ih =>
      rw [List.flatMap_cons, List.append_assoc, unescape_word, ih]
      rfl

/-! ### The whole text -/

/-- The words of a text without short numbers. -/
theorem body_eq_words {s : List Char} (h : ∀ c ∈ s, codeMark? c ≠ some 'x') :
    body s = s.flatMap (word ['u', 'U']) := by
  refine List.flatMap_congr fun c hc => ?_
  unfold word
  cases hcode : codeMark? c with
  | none => rfl
  | some mark =>
      have hmem : mark ∈ ['u', 'U'] :=
        (isCodeMark_spec (isCodeMark_of_codeMark? hcode fun hx => h c hc (hx ▸ hcode))).1
      dsimp only
      rw [if_pos hmem, escaped_of_codeMark? hcode]

theorem withoutEscapes_body {s : List Char} (h : IsReadable s) :
    withoutEscapes ('"' :: body s ++ ['"']) = .ok ('"' :: s ++ ['"']) := by
  have hcheck : checkFrom ('"' :: body s ++ ['"']) = .ok () := by
    rw [List.cons_append, ← List.singleton_append, checkFrom_append (by decide),
      checkFrom_body h.noShort]
    rfl
  have hfour : withCharacters 'u' 4 ('"' :: body s ++ ['"'])
      = .ok ('"' :: s.flatMap (word ['U']) ++ ['"']) := by
    rw [body_eq_words h.noShort]
    exact withCharacters_words (by simp [longMarks]) (by decide) (h.codes 'u' (by simp))
  have height : withCharacters 'U' 8 ('"' :: s.flatMap (word ['U']) ++ ['"'])
      = .ok ('"' :: s.flatMap (word []) ++ ['"']) :=
    withCharacters_words (by simp [longMarks]) (by decide) (h.codes 'U' (by simp))
  have hletters : unescape ('"' :: s.flatMap (word []) ++ ['"']) = .ok ('"' :: s ++ ['"']) := by
    rw [List.cons_append, unescape_cons (by decide), unescape_words]
    rfl
  unfold withoutEscapes
  rw [checkFrom] at hcheck
  rw [hcheck, hfour]
  show (do unescape (← withCharacters 'U' 8 _)) = _
  rw [height]
  exact hletters

/-- The quotes of a text are told from those at its beginning. -/
theorem withoutQuotes_quoted {s : List Char} (h : s ≠ ['"'] ∧ ¬ ['"', '"'] <+: s) :
    withoutQuotes '"' ('"' :: s ++ ['"']) = s := by
  have hinner : inner 1 ('"' :: s ++ ['"']) = s := by simp [inner]
  cases s with
  | nil => rfl
  | cons c s =>
      have hone : ¬ (c = '"' ∧ (('"' :: c :: s ++ ['"']).length < 3
          ∨ some c = ('"' :: c :: s ++ ['"'])[2]?)) := by
        rintro ⟨rfl, hshort | hsecond⟩
        · simp only [List.length_append, List.length_cons, List.length_nil] at hshort
          omega
        · cases s with
          | nil => exact h.1 rfl
          | cons d s =>
              obtain rfl : '"' = d := by simpa using hsecond
              exact h.2 (by simp)
      unfold withoutQuotes
      rw [if_neg ?_, hinner]
      simpa using hone

/-- **A text is read back** from what is written of it. -/
theorem readText_body {s : List Char} (h : IsReadable s) :
    readText '"' (body s ++ ['"']) = .ok (.string (String.ofList s)) := by
  unfold readText
  rw [checkClosed_body]
  have hescapes : withoutEscapes ('"' :: (body s ++ ['"'])) = .ok ('"' :: s ++ ['"']) :=
    withoutEscapes_body h
  dsimp only
  rw [if_pos rfl, hescapes]
  show Except.ok _ = _
  rw [withoutQuotes_quoted h.quotes]

end ApiClientGen.Toml
