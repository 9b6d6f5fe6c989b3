/-
Lists of texts read back.

A list is cut at its commas, those inside of texts too, and the pieces are put together until each
is a whole text.  A piece is taken for a whole text when a quote that is not escaped stands at
both its ends, so that a text is found again from its pieces unless there is nothing but spaces in
front of its first comma: then the quote that it begins with is taken for both.
-/
import ApiClientGen.Proofs.Toml.TextReadBack
import ApiClientGen.Proofs.Toml.WrittenLines

namespace ApiClientGen.Text

/-! ### Trimming -/

theorem trim_blank_cons {c : Char} (hc : isBlank c = true) (s : List Char) : trim (c :: s) = trim s := by
  rw [trim, trimStart, List.dropWhile_cons_of_pos hc]
  rfl

/-- What begins with a character that is not blank is trimmed at its end only. -/
theorem trim_cons {c : Char} (hc : isBlank c = false) (s : List Char) :
    trim (c :: s) = c :: trimEnd s := by
  have hdrop : ∀ t : List Char, ((t ++ [c]).dropWhile isBlank) = t.dropWhile isBlank ++ [c] := by
    intro t
    induction t with
    | nil => simp [hc]
    | cons d t ih =>
        rw [List.cons_append, List.dropWhile_cons, List.dropWhile_cons]
        split
        · exact ih
        · rfl
  rw [trim, trimStart, List.dropWhile_cons_of_neg (by simp [hc]), trimEnd, trimEnd, dropEndWhile,
    dropEndWhile, List.reverse_cons, hdrop]
  simp

theorem trimEnd_concat {c : Char} (hc : isBlank c = false) (s : List Char) :
    trimEnd (s ++ [c]) = s ++ [c] := by
  simp [trimEnd, dropEndWhile, hc]

theorem trimEnd_blank {c : Char} (hc : isBlank c = true) (s : List Char) :
    trimEnd (s ++ [c]) = trimEnd s := by
  simp [trimEnd, dropEndWhile, hc]

/-- What has no blank at its ends stays as it is. -/
theorem trim_eq_self {c d : Char} (hc : isBlank c = false) (hd : isBlank d = false) (s : List Char) :
    trim (c :: (s ++ [d])) = c :: (s ++ [d]) := by
  rw [trim_cons hc, trimEnd_concat hd]

end ApiClientGen.Text

namespace ApiClientGen.Toml

open ApiClientGen.Document ApiClientGen.Text

theorem trim_quotedText (s : String) : trim (quotedText s) = quotedText s :=
  trim_eq_self (by decide) (by decide) _

/-! ### Whole texts -/

theorem isWholeText_quotedText (s : String) : isWholeText (' ' :: quotedText s) = true := by
  have hbounded : isBounded (quotedText s) = true := by
    unfold isBounded quotedText
    have hlast : ('"' :: (body s.toList ++ ['"'])).getLast? = some '"' := by
      rw [← List.cons_append, List.getLast?_concat]
    rw [hlast]
    simp [endsInOddRun_body]
  have hhalf : isHalfLongText (quotedText s) = false := by
    have hhead := head?_body_ne_quote s.toList
    unfold quotedText
    cases hbody : body s.toList with
    | nil => rfl
    | cons c t =>
        have hne : ('"' == c) = false := by
          rw [hbody] at hhead
          exact beq_eq_false_iff_ne.mpr fun heq => hhead (congrArg some heq.symm)
        cases t with
        | nil => simp [isHalfLongText, hne]
        | cons d t => simp [isHalfLongText, hne]
  unfold isWholeText
  rw [trim_blank_cons (by decide), trim_quotedText]
  dsimp only
  rw [hbounded, hhalf]
  rfl

/-- Spaces that are written in front of a comma stand in front of one. -/
theorem beginsWithComma_of_body {s x q : List Char} (hx : ∀ c ∈ x, c = ' ')
    (h : body s = x ++ ',' :: q) : Setting.beginsWithComma s = true := by
  induction x generalizing s with
  | nil =>
      have hhead : s.head? = some ',' := head?_body (by decide) (by rw [h]; rfl)
      obtain ⟨rest, rfl⟩ := List.head?_eq_some_iff.mp hhead
      rfl
  | cons c x ih =>
      obtain ⟨rfl, hspaces⟩ := List.forall_mem_cons.mp hx
      have hhead : s.head? = some ' ' := head?_body (by decide) (by rw [h]; rfl)
      obtain ⟨rest, rfl⟩ := List.head?_eq_some_iff.mp hhead
      have hword : escaped '"' ' ' = [' '] := by decide
      have hrest : body rest = x ++ ',' :: q := by
        have hbody : body (' ' :: rest) = escaped '"' ' ' ++ body rest := rfl
        rw [hbody, hword] at h
        simpa using h
      have hcomma := ih hspaces hrest
      simpa [Setting.beginsWithComma] using hcomma

/-- In front of a comma of an item there is a part of its text. -/
theorem exists_part {s : String} {p q : List Char} (hp : ' ' :: quotedText s = p ++ ',' :: q) :
    ∃ x q', p = ' ' :: '"' :: x ∧ body s.toList = x ++ ',' :: q' := by
  unfold quotedText at hp
  match p, hp with
  | [], hp => simp at hp
  | [a], hp => simp at hp
  | a :: b :: x, hp =>
    simp only [List.cons_append, List.cons.injEq] at hp
    obtain ⟨rfl, rfl, hp⟩ := hp
    rcases List.append_eq_append_iff.mp hp with ⟨y, -, hy⟩ | ⟨y, hy, hrest⟩
    · cases y with
      | nil => simp at hy
      | cons c y => simp at hy
    · cases y with
      | nil => simp at hrest
      | cons c y =>
          simp only [List.cons_append, List.cons.injEq] at hrest
          exact ⟨x, y, rfl, by rw [hy, hrest.1]⟩

/-- A text is not whole before any of its commas. -/
theorem isWholeText_prefix {s : String} (h : Setting.beginsWithComma s.toList = false)
    {p q : List Char} (hp : ' ' :: quotedText s = p ++ ',' :: q) : isWholeText p = false := by
  obtain ⟨x, q', rfl, hbody⟩ := exists_part hp
  have htrim : trim (' ' :: '"' :: x) = '"' :: trimEnd x := by
    rw [trim_blank_cons (by decide), trim_cons (by decide)]
  -- What is left of the part ends in its last character that is not blank.
  obtain ⟨blanks, hx, hblanks⟩ := dropEndWhile_append isBlank x
  have hx : x = trimEnd x ++ blanks := hx
  have hbounded : isBounded ('"' :: trimEnd x) = false := by
    cases hlast : (trimEnd x).getLast? with
    | none =>
        have hnil : trimEnd x = [] := List.getLast?_eq_none_iff.mp hlast
        have hspaces : ∀ c ∈ x, c = ' ' := by
          intro c hc
          refine eq_space_of_isPrintable ?_ (isPrintable_of_mem_body (s := s.toList) (by simp [hbody, hc]))
          rw [hx, hnil] at hc
          exact hblanks c hc
        rw [beginsWithComma_of_body hspaces hbody] at h
        cases h
    | some c =>
        obtain ⟨y, hy⟩ := List.getLast?_eq_some_iff.mp hlast
        unfold isBounded
        rw [hy]
        by_cases hc : c = '"'
        · have hodd : endsInOddRun y = true := by
            refine endsInOddRun_before_quote (s := s.toList) (q := blanks ++ ',' :: q') ?_
            rw [hbody, hx, hy, hc]
            simp
          simp [hodd]
        · have hends : ('"' :: (y ++ [c])).getLast? = some c := by
            rw [← List.cons_append, List.getLast?_concat]
          rw [hends]
          simp [Ne.symm hc]
  unfold isWholeText
  dsimp only
  rw [htrim, hbounded]
  rfl

/-! ### Putting pieces together -/

theorem splitOn_append_separator (separator : Char) (s t : List Char) :
    splitOn separator (s ++ separator :: t) = splitOn separator s ++ splitOn separator t := by
  induction s with
  | nil => simp [splitOn]
  | cons c s ih =>
      by_cases hc : c = separator
      · rw [List.cons_append, splitOn, if_pos hc, splitOn, if_pos hc, ih]
        rfl
      · obtain ⟨piece, more, hs, hcons⟩ := splitOn_cons_of_ne hc s
        obtain ⟨piece', more', hs', hcons'⟩ := splitOn_cons_of_ne hc (s ++ separator :: t)
        rw [ih, hs] at hs'
        rw [List.cons_append, hcons', hcons]
        simp only [List.cons_append, List.cons.injEq] at hs'
        rw [List.cons_append, hs'.1, hs'.2]

theorem gatherTexts_of_not_whole {piece : List Char} (h : isWholeText piece = false) (next : List Char)
    (rest : List (List Char)) :
    gatherTexts piece (next :: rest) = gatherTexts (piece ++ ',' :: next) rest := by
  cases rest <;> simp [gatherTexts, h]

theorem gatherTexts_of_whole {piece : List Char} (h : isWholeText piece = true) (next third : List Char)
    (rest : List (List Char)) :
    gatherTexts piece (next :: third :: rest) = (gatherTexts next (third :: rest)).map (piece :: ·) := by
  rw [gatherTexts, if_pos h]
  · rfl
  · exact nofun

/-- The pieces of an item are put together again. -/
theorem gatherTexts_pieces {s : String} (h : Setting.beginsWithComma s.toList = false)
    {piece : List Char} {more : List (List Char)}
    (hitem : List.intercalate [','] (piece :: more) = ' ' :: quotedText s) (rest : List (List Char)) :
    gatherTexts piece (more ++ rest) = gatherTexts (' ' :: quotedText s) rest := by
  induction more generalizing piece with
  | nil =>
      rw [List.intercalate_singleton] at hitem
      rw [hitem, List.nil_append]
  | cons next more ih =>
      have hcut : List.intercalate [','] (piece :: next :: more)
          = piece ++ ',' :: List.intercalate [','] (next :: more) := by
        simp [List.intercalate_cons_cons]
      have hpart := isWholeText_prefix h (hitem.symm.trans hcut)
      have hjoined : List.intercalate [','] ((piece ++ ',' :: next) :: more) = ' ' :: quotedText s := by
        rw [← hitem, hcut]
        cases more with
        | nil => simp [List.intercalate_singleton]
        | cons third more => simp [List.intercalate_cons_cons]
      rw [List.cons_append, gatherTexts_of_not_whole hpart, ih hjoined]

theorem itemWords_cons (s : String) (ss : List String) :
    itemWords (s :: ss) = (' ' :: quotedText s) ++ ',' :: itemWords ss := by
  simp [itemWords]

/-- From its pieces, the first item of a list is found again. -/
theorem exists_gatherTexts {s : String} (hs : Setting.beginsWithComma s.toList = false)
    (ss : List String) :
    ∃ piece next more, splitOn ',' (itemWords (s :: ss)) = piece :: next :: more
      ∧ gatherTexts piece (next :: more) = gatherTexts (' ' :: quotedText s) (splitOn ',' (itemWords ss)) := by
  obtain ⟨piece, pieces, hpieces⟩ :=
    List.exists_cons_of_ne_nil (splitOn_ne_nil ',' (' ' :: quotedText s))
  have hjoined := intercalate_splitOn ',' (' ' :: quotedText s)
  rw [hpieces] at hjoined
  have hne : pieces ++ splitOn ',' (itemWords ss) ≠ [] := by
    simp [splitOn_ne_nil]
  obtain ⟨next, more, hmore⟩ := List.exists_cons_of_ne_nil hne
  refine ⟨piece, next, more, ?_, ?_⟩
  · rw [itemWords_cons, splitOn_append_separator, hpieces, List.cons_append, hmore]
  · rw [← hmore]
    exact gatherTexts_pieces hs hjoined _

/-- The items of a list are found again, and an empty one behind the last comma. -/
theorem gatherTexts_items (s : String) {ss : List String}
    (hss : ∀ s ∈ ss, Setting.beginsWithComma s.toList = false) :
    gatherTexts (' ' :: quotedText s) (splitOn ',' (itemWords ss))
      = .ok ((s :: ss).map (fun s => ' ' :: quotedText s) ++ [[]]) := by
  induction ss generalizing s with
  | nil => simp [itemWords, splitOn, gatherTexts, isWholeText_quotedText]
  | cons s' ss ih =>
      obtain ⟨hs', hss'⟩ := List.forall_mem_cons.mp hss
      obtain ⟨piece, next, more, hsplit, hgather⟩ := exists_gatherTexts hs' ss
      rw [hsplit, gatherTexts_of_whole (isWholeText_quotedText s), hgather, ih s' hss']
      rfl

/-- **A list of texts** is cut into its items. -/
theorem arrayPieces_written {ss : List String}
    (hss : ∀ s ∈ ss, Setting.beginsWithComma s.toList = false) :
    arrayPieces (Setting.texts ss).written = .ok (ss.map (fun s => ' ' :: quotedText s) ++ [[]]) := by
  have hinner : inner 1 (Setting.texts ss).written = itemWords ss := by
    simp [inner, Setting.written]
  cases ss with
  | nil => rfl
  | cons s ss =>
      obtain ⟨hs, hss'⟩ := List.forall_mem_cons.mp hss
      have hhead : (trim (itemWords (s :: ss))).head? = some '"' := by
        rw [itemWords_cons, List.cons_append, trim_blank_cons (by decide), quotedText,
          List.cons_append, trim_cons (by decide)]
        rfl
      have htexts : isTextArray (Setting.texts (s :: ss)).written = true := by
        unfold isTextArray
        rw [hinner, hhead]
        rfl
      have hfront : trim ((itemWords (s :: ss)).takeWhile (· ≠ '[')) ≠ [] := by
        rw [itemWords_cons]
        simp only [List.cons_append, quotedText]
        rw [List.takeWhile_cons_of_pos (by decide), List.takeWhile_cons_of_pos (by decide),
          trim_blank_cons (by decide), trim_cons (by decide)]
        exact List.cons_ne_nil _ _
      have hflat : (!(itemWords (s :: ss)).contains '['
          || decide (trim ((itemWords (s :: ss)).takeWhile (· ≠ '[')) ≠ [])) = true := by
        rw [decide_eq_true hfront, Bool.or_true]
      obtain ⟨piece, next, more, hsplit, hgather⟩ := exists_gatherTexts hs ss
      unfold arrayPieces
      dsimp only
      rw [hinner, hhead, htexts, if_pos hflat, if_neg (by decide), if_pos rfl, hsplit]
      show gatherTexts piece (next :: more) = _
      rw [hgather, gatherTexts_items s hss']

/-! ### The items -/

/-- Reads one more item of an array. -/
def addItem (read : List Char → Except Fault Value) (done : List Value) (piece : List Char) :
    Except Fault (List Value) := do
  let v ← read piece
  match done.head? with
  | some other => if kindOf v ≠ kindOf other then throw .malformed else return v :: done
  | none => return [v]

variable {read : List Char → Except Fault Value} {ss : List String}

/-- Texts are all of one kind. -/
theorem addItems_texts (h : ∀ s ∈ ss, read (quotedText s) = .ok (.string s)) (done : List String) :
    (ss.map quotedText).foldlM (addItem read) (done.map .string)
      = .ok ((ss.reverse ++ done).map .string) := by
  induction ss generalizing done with
  | nil => rfl
  | cons s ss ih =>
      obtain ⟨hs, hss⟩ := List.forall_mem_cons.mp h
      have hstep : addItem read (done.map .string) (quotedText s)
          = .ok ((s :: done).map .string) := by
        unfold addItem
        rw [hs]
        cases done <;> rfl
      rw [List.map_cons, List.foldlM_cons, hstep, List.reverse_cons, List.append_assoc]
      exact ih hss (s :: done)

/-- What reads texts reads a list of them. -/
theorem readArray_written (hss : ∀ s ∈ ss, Setting.beginsWithComma s.toList = false)
    (hread : ∀ s ∈ ss, read (quotedText s) = .ok (.string s)) :
    readArray read (Setting.texts ss).written = .ok (.list (ss.map .string)) := by
  have htrim : trim (Setting.texts ss).written = (Setting.texts ss).written :=
    trim_eq_self (by decide) (by decide) _
  have hpieces : (((ss.map fun s => ' ' :: quotedText s) ++ [[]]).map trim).filter (· ≠ [])
      = ss.map quotedText := by
    have hitem : ∀ s : String, trim (' ' :: quotedText s) = quotedText s := fun s => by
      rw [trim_blank_cons (by decide), trim_quotedText]
    have hempty : trim [] = [] := rfl
    have hkeep : (ss.map quotedText).filter (· ≠ []) = ss.map quotedText := by
      refine List.filter_eq_self.mpr fun piece hpiece => ?_
      obtain ⟨s, -, rfl⟩ := List.mem_map.mp hpiece
      exact decide_eq_true (List.cons_ne_nil _ _)
    rw [List.map_append, List.map_map, List.map_singleton, hempty, List.filter_append]
    simp only [Function.comp_def, hitem, hkeep]
    simp
  have hfold := addItems_texts hread []
  unfold readArray
  rw [htrim, arrayPieces_written hss]
  show (do
    let items ← ((((ss.map fun s => ' ' :: quotedText s) ++ [[]]).map trim).filter (· ≠ [])).foldlM
      (addItem read) []
    return Value.list items.reverse) = _
  rw [hpieces]
  rw [List.map_nil] at hfold
  rw [hfold]
  simp [Bind.bind, Except.bind, Pure.pure, Except.pure]

end ApiClientGen.Toml
