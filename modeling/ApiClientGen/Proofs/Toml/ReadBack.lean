/-
Plain settings read back.

A line is cut at its first equals sign, which stands between the key and the value, whatever
stands in the value: signs inside of quotes do not count, and no quote comes in front of it.  What
was written of a value is read as the value again, and the key is free in the table that has been
read so far, because no key comes twice.
-/
import ApiClientGen.Proofs.Document.Answers
import ApiClientGen.Proofs.Document.Tables
import ApiClientGen.Proofs.Toml.ArrayReadBack
import ApiClientGen.Toml.Reader

namespace ApiClientGen.Toml

open ApiClientGen.Document ApiClientGen.Number ApiClientGen.Text

/-! ### Values -/

theorem lowered_ne_of_head {s word : List Char} {c d : Char} (hs : s.head? = some c)
    (hword : word.head? = some d) (hne : c.toLower ≠ d) : lowered s ≠ word := by
  rintro rfl
  rw [lowered, List.head?_map, hs, Option.map_some, Option.some.injEq] at hword
  exact hne hword

/-- A value that begins with a quote or a bracket is no word, but a text or an array. -/
theorem readNested_cons {c : Char} (hc : c ∈ ['"', '[']) (fuel : Nat) (strict : Bool) (rest : List Char) :
    readNested (fuel + 1) strict (c :: rest)
      = if isQuote c then readText c rest else readArray (readNested fuel true) (c :: rest) := by
  obtain ⟨ht, hf, htlower, hflower, hbracket⟩ : c ≠ 't' ∧ c ≠ 'f' ∧ c.toLower ≠ 't' ∧ c.toLower ≠ 'f'
      ∧ (isQuote c = false → c = '[') := by
    simp only [List.mem_cons, List.not_mem_nil, or_false] at hc
    rcases hc with rfl | rfl <;> decide
  have htrue : c :: rest ≠ "true".toList := fun heq => ht (List.cons.inj heq).1
  have hfalse : c :: rest ≠ "false".toList := fun heq => hf (List.cons.inj heq).1
  have hword : isTruthWord (c :: rest) = false := by
    unfold isTruthWord
    rw [decide_eq_false (lowered_ne_of_head (c := c) rfl rfl htlower),
      decide_eq_false (lowered_ne_of_head (c := c) rfl rfl hflower)]
    rfl
  unfold readNested
  dsimp only
  rw [if_neg htrue, if_neg hfalse, hword, if_neg (by decide)]
  by_cases hquote : isQuote c = true
  · rw [if_pos hquote, if_pos hquote]
  · rw [if_neg hquote, if_neg hquote, if_pos (hbracket (by simpa using hquote))]

theorem readNested_quotedText {s : String} (h : IsReadable s.toList) (fuel : Nat) (strict : Bool) :
    readNested (fuel + 1) strict (quotedText s) = .ok (.string s) := by
  have hread := readText_body h
  rw [String.ofList_toList] at hread
  rw [quotedText, readNested_cons (by simp), if_pos (by decide), hread]

/-- **What is written of a setting** is read as its value. -/
theorem readValue_written {setting : Setting} (h : setting.IsReadable) (strict : Bool) :
    readValue strict setting.written = .ok setting.value := by
  cases setting with
  | text s => exact readNested_quotedText h _ strict
  | truth b => cases b <;> rfl
  | texts ss =>
      have hfuel : (Setting.texts ss).written.length = (itemWords ss ++ [']']).length + 1 := rfl
      unfold readValue
      rw [hfuel, Setting.written, readNested_cons (by simp), if_neg (by decide)]
      exact readArray_written (fun s hs => (h s hs).2)
        fun s hs => readNested_quotedText (h s hs).1 _ true

/-! ### The sides of a line -/

theorem openPart?_of_not_quote {c : Char} (hc : isQuote c = false) {rest : List Char}
    (hlast : (c :: rest).getLast? = some ']') : openPart? (c :: rest) = .ok none := by
  unfold openPart?
  by_cases hshort : (c :: rest).length < 3
  · rw [if_pos hshort]
    rfl
  · rw [if_neg hshort, if_neg (by simp [hlast])]
    show (if !isQuote c then _ else _) = _
    rw [hc]
    rfl

theorem openPart?_quote {c : Char} (hc : c ≠ '"') (rest : List Char) :
    openPart? ('"' :: c :: rest) = .ok none := by
  unfold openPart?
  by_cases hshort : ('"' :: c :: rest).length < 3
  · rw [if_pos hshort]
    rfl
  · rw [if_neg hshort, if_neg (by simp)]
    show (if c ≠ '"' then _ else _) = _
    rw [if_pos hc]
    rfl

/-- No text of several lines begins in what is written of a setting. -/
theorem openPart?_written (setting : Setting) : openPart? setting.written = .ok none := by
  cases setting with
  | text s =>
      have hhead := head?_body_ne_quote s.toList
      show openPart? (quotedText s) = _
      rw [quotedText]
      cases hbody : body s.toList with
      | nil => rfl
      | cons c t =>
          refine openPart?_quote ?_ _
          rintro rfl
          exact hhead (by rw [hbody]; rfl)
  | truth b => cases b <;> rfl
  | texts ss =>
      refine openPart?_of_not_quote (by decide) ?_
      rw [← List.cons_append, List.getLast?_concat]

/-- In front of the first quote of a value, there is no quote of the other kind. -/
theorem splitOn_quote_written (setting : Setting) :
    ∃ piece more, splitOn '"' setting.written = piece :: more ∧ '\'' ∉ piece := by
  cases setting with
  | text s => exact ⟨[], _, splitOn_append_cons (s := []) (by simp) _, by simp⟩
  | truth b =>
      have hall : ∀ b, splitOn '"' (Setting.truth b).written = [(Setting.truth b).written]
          ∧ '\'' ∉ (Setting.truth b).written := by decide
      exact ⟨_, _, (hall b).1, (hall b).2⟩
  | texts ss =>
      cases ss with
      | nil => exact ⟨_, _, rfl, by decide⟩
      | cons s ss =>
          exact ⟨['[', ' '], _, splitOn_append_cons (s := ['[', ' ']) (by decide) _, by decide⟩

/-- What a character in front of the value of a line is not. -/
theorem notMem_front {key : String} (h : isBareKey key = true) {c : Char} (hc : isBareChar c = false)
    (hsigns : c ∉ [' ', '=']) : c ∉ key.toList ++ [' ', '=', ' '] := by
  intro hmem
  rcases List.mem_append.mp hmem with hkey | hsign
  · rw [(isBareKey_iff.mp h).2 c hkey] at hc
    cases hc
  · simp only [List.mem_cons, List.not_mem_nil, or_false] at hsign hsigns
    rcases hsign with rfl | rfl | rfl <;> simp at hsigns

theorem lineWord_eq (e : String × Setting) :
    lineWord e = (e.1.toList ++ [' ', '=', ' ']) ++ e.2.written := by
  simp [lineWord]

/-- The first piece of a line outside of quotes holds all of its key and the sign behind it. -/
theorem quoteParts_lineWord {e : String × Setting} (h : isBareKey e.1 = true) :
    ∃ piece more, quoteParts (lineWord e) = ((e.1.toList ++ [' ', '=', ' ']) ++ piece) :: more := by
  obtain ⟨piece, more, hpieces, hsingle⟩ := splitOn_quote_written e.2
  have hsplit : splitOn '"' (lineWord e) = ((e.1.toList ++ [' ', '=', ' ']) ++ piece) :: more := by
    rw [lineWord_eq]
    exact splitOn_append_of_notMem (notMem_front h (by decide) (by decide)) hpieces
  have hnone : '\'' ∉ (e.1.toList ++ [' ', '=', ' ']) ++ piece := by
    rw [List.mem_append, not_or]
    exact ⟨notMem_front h (by decide) (by decide), hsingle⟩
  refine ⟨piece, more, ?_⟩
  unfold quoteParts
  rw [hsplit]
  generalize (e.1.toList ++ [' ', '=', ' ']) ++ piece = first at hnone
  cases more with
  | nil =>
      dsimp only
      rw [splitOn_of_notMem hnone]
      rfl
  | cons second rest =>
      have hcontains : first.contains '\'' = false := by
        rw [← Bool.not_eq_true, List.contains_iff_mem]
        exact hnone
      dsimp only
      rw [hcontains, if_neg (by decide)]
      dsimp only
      rw [splitOn_of_notMem hnone]
      rfl

theorem trim_key {key : String} (h : isBareKey key = true) : trim (key.toList ++ [' ']) = key.toList := by
  obtain ⟨hne, hchars⟩ := isBareKey_iff.mp h
  obtain ⟨c, s, hkey⟩ := List.exists_cons_of_ne_nil hne
  have hblank : ∀ d ∈ c :: s, isBlank d = false := fun d hd =>
    (isBareChar_spec (hchars d (hkey ▸ hd))).1
  rw [hkey, List.cons_append, trim_cons (hblank c (by simp)), trimEnd_blank (by decide)]
  congr 1
  cases s using List.reverseRecOn with
  | nil => rfl
  | append_singleton s d => exact trimEnd_concat (hblank d (by simp)) s

theorem trim_written (setting : Setting) : trim (' ' :: setting.written) = setting.written := by
  rw [trim_blank_cons (by decide)]
  cases setting with
  | text s => exact trim_quotedText s
  | truth b => cases b <;> decide
  | texts ss => exact trim_eq_self (by decide) (by decide) _

/-- **The sides of a line** are the key and the value. -/
theorem sides_lineWord {e : String × Setting} (h : isBareKey e.1 = true) :
    ∃ strict, sides (lineWord e) = .ok ⟨e.1.toList, e.2.written, strict⟩ := by
  obtain ⟨piece, more, hparts⟩ := quoteParts_lineWord h
  have hcuts : cutsInQuotes (List.count '=') false (quoteParts (lineWord e)) = 0 := by
    rw [hparts, cutsInQuotes]
    simp
  have hkey : '=' ∉ e.1.toList ++ [' '] := by
    intro hmem
    rcases List.mem_append.mp hmem with hkey | hsign
    · exact ne_of_isBareChar ((isBareKey_iff.mp h).2 '=' hkey) (by decide) rfl
    · simp at hsign
  have hsplit : splitOn '=' (lineWord e) = (e.1.toList ++ [' ']) :: splitOn '=' (' ' :: e.2.written) := by
    have hline : lineWord e = (e.1.toList ++ [' ']) ++ '=' :: (' ' :: e.2.written) := by
      simp [lineWord]
    rw [hline, splitOn_append_cons hkey]
  have hsides : sidesAt (lineWord e) 1 = (e.1.toList ++ [' '], ' ' :: e.2.written) := by
    have hjoined := intercalate_splitOn '=' (' ' :: e.2.written)
    obtain ⟨first, rest, hrest⟩ := List.exists_cons_of_ne_nil (splitOn_ne_nil '=' (' ' :: e.2.written))
    rw [hrest] at hjoined hsplit
    unfold sidesAt splitAtMost
    dsimp only
    rw [hsplit, if_neg (by simp)]
    simp [hjoined]
  refine ⟨isStrictNumber (' ' :: e.2.written), ?_⟩
  unfold sides
  dsimp only
  rw [hcuts, hsides]
  show (do
    let s ← settle (lineWord e) (1 + 0) ⟨e.1.toList ++ [' '], ' ' :: e.2.written, _⟩ (_ + 3)
    return ({ s with left := trim s.left, right := trim s.right } : Sides)) = _
  rw [settle, if_pos (by simp [looksLikeValue])]
  show Except.ok (⟨trim (e.1.toList ++ [' ']), trim (' ' :: e.2.written), _⟩ : Sides) = _
  rw [trim_key h, trim_written]

theorem keyPath_bare {key : String} (h : isBareKey key = true) :
    keyPath key.toList = .ok ([], key) := by
  obtain ⟨hne, hchars⟩ := isBareKey_iff.mp h
  obtain ⟨c, s, hkey⟩ := List.exists_cons_of_ne_nil hne
  have hdot : key.toList.contains '.' = false := by
    rw [← Bool.not_eq_true, List.contains_iff_mem]
    intro hmem
    exact ne_of_isBareChar (hchars '.' hmem) (by decide) rfl
  have hc : isBareChar c = true := hchars c (by rw [hkey]; simp)
  have hquote : isQuote c = false := by
    simp [isQuote, ne_of_isBareChar hc (d := '"') (by decide), ne_of_isBareChar hc (d := '\'') (by decide)]
  unfold keyPath
  rw [hdot, if_neg (by decide), hkey]
  simp only [List.head?_cons, hquote]
  rw [if_neg (by simp), ← hkey, String.ofList_toList]

/-! ### Lines -/

theorem exists_concat_written (setting : Setting) :
    ∃ s c, setting.written = s ++ [c] ∧ isBlank c = false := by
  cases setting with
  | text s => exact ⟨'"' :: body s.toList, '"', rfl, by decide⟩
  | truth b =>
      cases b with
      | false => exact ⟨"fals".toList, 'e', by decide, by decide⟩
      | true => exact ⟨"tru".toList, 'e', by decide, by decide⟩
  | texts ss => exact ⟨'[' :: itemWords ss, ']', rfl, by decide⟩

/-- A line begins with a character of its key, and it has no blanks at its ends. -/
theorem exists_cons_lineWord {e : String × Setting} (h : isBareKey e.1 = true) :
    ∃ c rest, lineWord e = c :: rest ∧ isBareChar c = true ∧ trim (lineWord e) = lineWord e := by
  obtain ⟨hne, hchars⟩ := isBareKey_iff.mp h
  obtain ⟨c, key, hkey⟩ := List.exists_cons_of_ne_nil hne
  obtain ⟨s, d, hwritten, hd⟩ := exists_concat_written e.2
  have hc : isBareChar c = true := hchars c (by rw [hkey]; simp)
  have hline : lineWord e = c :: ((key ++ (' ' :: '=' :: ' ' :: s)) ++ [d]) := by
    simp [lineWord, hkey, hwritten]
  exact ⟨c, _, hline, hc, by rw [hline, trim_eq_self (isBareChar_spec hc).1 hd]⟩

/-- **An assignment** writes the setting of its line under the key, if the key is free. -/
theorem assign_lineWord {e : String × Setting} (hkey : isBareKey e.1 = true) (hsetting : e.2.IsReadable)
    {fields : Fields Value} (hfree : e.1 ∉ Fields.keys fields) :
    assign readValue (lineWord e) (.mapping fields)
      = .ok (.mapping (fields ++ [(e.1, e.2.value)]), none) := by
  obtain ⟨strict, hsides⟩ := sides_lineWord hkey
  have hchecked : checkFree e.1 (.mapping fields) = .ok fields := by
    have hhas : Fields.has fields e.1 = false := by
      unfold Fields.has
      rw [Fields.get?_eq_none hfree]
      rfl
    simp [checkFree, hhas]
  unfold assign
  refine except_bind_ok.mpr ⟨_, hsides, except_bind_ok.mpr ⟨_, keyPath_bare hkey, ?_⟩⟩
  simp only [bind, Except.bind, inTable]
  rw [openPart?_written, readValue_written hsetting, hchecked]
  show Except.ok _ = _
  rw [Fields.set_eq_append hfree]

/-- **A line** writes its setting under its key, if the key is free. -/
theorem line_lineWord {e : String × Setting} (hkey : isBareKey e.1 = true) (hsetting : e.2.IsReadable)
    {fields : Fields Value} (hfree : e.1 ∉ Fields.keys fields) :
    Reading.line { root := .mapping fields } (lineWord e)
      = .ok { root := .mapping (fields ++ [(e.1, e.2.value)]) } := by
  obtain ⟨c, rest, hline, hc, htrim⟩ := exists_cons_lineWord hkey
  have hne : trim (lineWord e) ≠ [] := by
    rw [htrim, hline]
    exact List.cons_ne_nil _ _
  have hequals : (lineWord e).contains '=' = true := by
    simp [lineWord]
  unfold Reading.line
  dsimp only
  rw [if_neg hne, htrim]
  unfold Reading.plainLine
  split
  · rename_i heq
    rw [hline] at heq
    exact absurd (List.cons.inj heq).1 (ne_of_isBareChar hc (by decide))
  · rename_i heq
    rw [hline] at heq
    exact absurd (List.cons.inj heq).1 (ne_of_isBareChar hc (by decide))
  · rw [hequals, if_neg (by decide)]
    exact except_bind_ok.mpr ⟨_, assign_lineWord hkey hsetting hfree, rfl⟩

theorem lines_fold {t : PlainTable} (h : t.IsReadable) {done : Fields Value}
    (hfree : ∀ e ∈ t, e.1 ∉ Fields.keys done) :
    (t.map lineWord).foldlM Reading.line { root := .mapping done }
      = .ok { root := .mapping (done ++ t.fields) } := by
  induction t generalizing done with
  | nil =>
      show Except.ok _ = _
      rw [PlainTable.fields, List.map_nil, List.append_nil]
  | cons e t ih =>
      obtain ⟨hbare, hbares⟩ := List.forall_mem_cons.mp h.bare
      obtain ⟨hsetting, hsettings⟩ := List.forall_mem_cons.mp h.settings
      obtain ⟨hkey, hkeys⟩ := List.forall_mem_cons.mp hfree
      obtain ⟨hnew, hnodup⟩ := List.nodup_cons.mp h.nodup
      have hrest : ∀ e' ∈ t, e'.1 ∉ Fields.keys (done ++ [(e.1, e.2.value)]) := by
        intro e' he' hmem
        rw [Fields.keys_append, List.mem_append] at hmem
        rcases hmem with hmem | hmem
        · exact hkeys e' he' hmem
        · rw [Fields.keys, List.map_singleton, List.mem_singleton] at hmem
          exact hnew (hmem ▸ List.mem_map_of_mem he')
      rw [List.map_cons, List.foldlM_cons, line_lineWord hbare hsetting hkey]
      show (t.map lineWord).foldlM Reading.line _ = _
      rw [ih ⟨hnodup, hbares, hsettings⟩ hrest]
      simp [PlainTable.fields]

theorem unifyBreaks_eq_self {s : List Char} (h : '\r' ∉ s) : unifyBreaks s = s := by
  induction s with
  | nil => rfl
  | cons c s ih =>
      simp only [List.mem_cons, not_or] at h
      rw [unifyBreaks, ih h.2]
      · rintro _ rfl
        exact absurd rfl h.1
      · rintro rfl
        exact absurd rfl h.1

/-- **Plain settings are read back** from what is written of them. -/
theorem read_write {t : PlainTable} (h : t.IsReadable) :
    ∃ text, write t.fields = .ok text ∧ read text = .ok t.fields := by
  refine ⟨_, write_fields h, ?_⟩
  unfold read
  rw [String.toList_ofList, unifyBreaks_eq_self (return_notMem_tableText h.bare),
    linesOf_tableText h.bare]
  show (do
    let r ← (t.map lineWord ++ [[]]).foldlM Reading.line {}
    return r.root.asFields) = _
  have hfree : ∀ e ∈ t, e.1 ∉ Fields.keys ([] : Fields Value) := fun e _ => by simp [Fields.keys]
  rw [List.foldlM_append, lines_fold h hfree]
  rfl

end ApiClientGen.Toml
