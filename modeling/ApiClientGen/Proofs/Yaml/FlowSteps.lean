/-
Steps of a scanner along one line.

Inside brackets on a single line a scanner goes from token to token: it has no blocks to end, and
no place where a key has to follow.  A place where a key may begin is remembered at most until the
next token that may begin one, so that a colon directly behind a key always finds its place, if
the key is not too long.
-/
import ApiClientGen.Proofs.Yaml.QuotedWords

namespace ApiClientGen.Yaml

open ApiClientGen.Json ApiClientGen.Number

/-! ### Places on a line -/

namespace Cursor

theorem skipWhile_spaces {c : Cursor} (n : Nat) {s : List Char}
    (hc : c.rest = List.replicate n ' ' ++ s) (hs : s.head? ≠ some ' ') :
    c.skipWhile (· == ' ') = c.advanceBy n := by
  have htake : c.rest.takeWhile (· == ' ') = List.replicate n ' ' := by
    rw [hc, List.takeWhile_append_of_pos fun d hd => by simp [List.eq_of_mem_replicate hd]]
    cases s with
    | nil => simp
    | cons d s =>
        have hd : d ≠ ' ' := fun h => hs (congrArg some h)
        simp [hd]
  unfold skipWhile Cursor.takeWhile
  dsimp only
  rw [htake, List.length_replicate]

theorem advance_printable {c : Cursor} {ch : Char} {rest : List Char} (hc : c.rest = ch :: rest)
    (hch : IsPrintable ch) : c.advance.index = c.index + 1 ∧ c.advance.line = c.line := by
  have hne : ∀ d, ¬ IsPrintable d → ch ≠ d := by
    rintro d hd rfl
    exact hd hch
  have hbreak : isBreak ch = false := by
    simp [isBreak, hne '\n' (by decide), hne '\r' (by decide), hne '\x85' (by decide),
      hne '\u2028' (by decide), hne '\u2029' (by decide)]
  have hreturn : (ch == '\r') = false := beq_eq_false_iff_ne.mpr (hne '\r' (by decide))
  have hmark : (ch == '\ufeff') = false := beq_eq_false_iff_ne.mpr (hne '\ufeff' (by decide))
  unfold Cursor.advance
  rw [hc]
  dsimp only
  rw [hbreak, hreturn, hmark]
  exact ⟨rfl, rfl⟩

/-- Along printable characters the index grows, and the line stays the same. -/
theorem advanceBy_printable {c : Cursor} {s rest : List Char} (hc : c.rest = s ++ rest)
    (hs : ∀ ch ∈ s, IsPrintable ch) :
    (c.advanceBy s.length).index = c.index + s.length ∧ (c.advanceBy s.length).line = c.line := by
  induction s generalizing c with
  | nil => exact ⟨rfl, rfl⟩
  | cons ch s ih =>
      obtain ⟨hch, hs⟩ := List.forall_mem_cons.mp hs
      obtain ⟨hindex, hline⟩ := advance_printable hc hch
      obtain ⟨hindex', hline'⟩ := ih (c := c.advance) (by rw [advance_rest, hc]; rfl) hs
      rw [List.length_cons, advanceBy, hindex', hline', hindex, hline]
      exact ⟨by omega, rfl⟩

end Cursor

/-! ### Bare words -/

/-- What may follow a value inside brackets: a comma or a closing bracket. -/
def IsFlowEnd (rest : List Char) : Prop := ∃ c more, rest = c :: more ∧ c ∈ [',', ']', '\x7d']

/-- A word goes on to the end of the value. -/
theorem plainWord_word {w rest : List Char} (hw : ∀ c ∈ w, isWordChar c = true)
    (hrest : IsFlowEnd rest) : plainWord true (w ++ rest) = w := by
  induction w with
  | nil =>
      obtain ⟨c, more, rfl, hc⟩ := hrest
      have hstop := List.all_eq_true.mp (by decide : [',', ']', '\x7d'].all isFlowStop = true) c hc
      simp [plainWord, hstop]
  | cons c w ih =>
      obtain ⟨hc, hw⟩ := List.forall_mem_cons.mp hw
      have hne : ∀ d, isWordChar d = false → c ≠ d := fun _ => ne_of_test hc
      have hblank := isBlankOrEnd_of_isPrintable (isPrintable_of_isWordChar hc) (hne ' ' (by decide))
      have hstop : isFlowStop c = false := by
        simp [isFlowStop, hne ',' (by decide), hne '?' (by decide), hne '[' (by decide),
          hne ']' (by decide), hne '\x7b' (by decide), hne '\x7d' (by decide)]
      rw [List.cons_append, plainWord, hblank, hstop, beq_eq_false_iff_ne.mpr (hne ':' (by decide))]
      simp [ih hw]

/-- No space follows a value. -/
theorem plainSpaces_of_isFlowEnd {c : Cursor} (hc : IsFlowEnd c.rest) :
    plainSpaces c = (some [], c, false) := by
  obtain ⟨d, more, hrest, hd⟩ := hc
  have hplain : isBreak d = false ∧ (d == ' ') = false := by
    simp only [List.mem_cons, List.not_mem_nil, or_false] at hd
    rcases hd with rfl | rfl | rfl <;> decide
  have htake : c.rest.takeWhile (· == ' ') = [] := by
    rw [hrest, List.takeWhile_cons, hplain.2]
    rfl
  unfold plainSpaces Cursor.takeWhile
  dsimp only
  have hstay : c.advanceBy ([] : List Char).length = c := rfl
  rw [htake, hstay, Cursor.lineBreak_of_not_isBreak hrest hplain.1]
  rfl

theorem plainText_word {c : Cursor} {w rest : List Char} (hw : IsBareWord w) (hrest : IsFlowEnd rest)
    (hc : c.rest = w ++ rest) (indent : Int) (fuel : Nat) :
    plainText true indent (fuel + 1) [] [] false c = (w, c.advanceBy w.length, false) := by
  have hcomment : (c.peek == '#') = false := by
    obtain ⟨first, more, rfl⟩ := hw.exists_cons
    rw [Cursor.peek, hc, beq_eq_false_iff_ne]
    rintro (rfl : first = '#')
    exact absurd (hw.chars '#' (by simp)) (by decide)
  have hsome : w.isEmpty = false := by
    obtain ⟨first, more, rfl⟩ := hw.exists_cons
    rfl
  have hend : IsFlowEnd (c.advanceBy w.length).rest := by
    rw [Cursor.advanceBy_rest, hc, List.drop_left' rfl]
    exact hrest
  unfold plainText
  dsimp only
  rw [hcomment, if_neg Bool.false_ne_true, hc, plainWord_word hw.chars hrest, hsome,
    if_neg Bool.false_ne_true, plainSpaces_of_isFlowEnd hend]
  rfl

/-! ### Quiet scanners -/

namespace Scanner

/-- No block stands open, and no key has to follow. -/
structure Quiet (s : Scanner) : Prop where
  indent : s.indent = -1
  outer : s.outer = []
  loose : ∀ k ∈ s.starts, k.required = false

variable {s t u : Scanner} {rest : List Char}

theorem Quiet.dropStart (hs : s.Quiet) :
    s.dropStart = .ok { s with starts := s.starts.filter fun k => k.flow != s.flow } := by
  unfold Scanner.dropStart
  rw [if_neg]
  rw [Bool.not_eq_true, List.any_eq_false]
  intro k hk
  simp [hs.loose k hk]

theorem Quiet.dropStale (hs : s.Quiet) :
    s.dropStale = .ok { s with starts := s.starts.filter fun k => !s.isStale k } := by
  unfold Scanner.dropStale
  rw [if_neg]
  rw [Bool.not_eq_true, List.any_eq_false]
  intro k hk
  simp [hs.loose k hk]

theorem Quiet.unwind (hs : s.Quiet) (column : Int) : s.unwind column = s := by
  unfold Scanner.unwind
  rw [hs.outer]
  split <;> rfl

theorem Quiet.filter (hs : s.Quiet) (p : KeyStart → Bool) :
    Quiet { s with starts := s.starts.filter p } :=
  ⟨hs.indent, hs.outer, fun k hk => hs.loose k (List.mem_filter.mp hk).1⟩

/-- The place where a key may begin here. -/
def keyStart (s : Scanner) : KeyStart :=
  ⟨s.flow, s.count, false, s.cursor.index, s.cursor.line, s.cursor.column⟩

/-- The places that are remembered behind one where a key may begin. -/
def savedStarts (s : Scanner) : List KeyStart :=
  if s.keyAllowed then s.keyStart :: s.starts.filter fun k => k.flow != s.flow else s.starts

theorem Quiet.saveStart (hs : s.Quiet) : s.saveStart = .ok { s with starts := s.savedStarts } := by
  have hindent : (s.indent == (s.cursor.column : Int)) = false := by
    rw [hs.indent, beq_eq_false_iff_ne]
    omega
  unfold Scanner.saveStart savedStarts
  split
  · rw [hs.dropStart]
    show Except.ok _ = _
    simp [hindent, keyStart]
  · rfl

theorem Quiet.savedStarts (hs : s.Quiet) : ∀ k ∈ s.savedStarts, k.required = false := by
  unfold Scanner.savedStarts
  split
  · exact List.forall_mem_cons.mpr ⟨rfl, fun k hk => hs.loose k (List.mem_filter.mp hk).1⟩
  · exact hs.loose

theorem inFlow_of_pos (h : 0 < s.flow) : s.inFlow = true :=
  bne_iff_ne.mpr (Nat.ne_of_gt h)

/-! ### To the next token -/

/-- A scanner behind some spaces, where it has forgotten the places that are too far back. -/
def behind (s : Scanner) (n : Nat) : Scanner :=
  let s := { s with cursor := s.cursor.advanceBy n }
  { s with starts := s.starts.filter fun k => !s.isStale k }

@[simp]
theorem behind_flow (s : Scanner) (n : Nat) : (s.behind n).flow = s.flow := rfl

@[simp]
theorem behind_keyAllowed (s : Scanner) (n : Nat) : (s.behind n).keyAllowed = s.keyAllowed := rfl

theorem Quiet.behind (hs : s.Quiet) (n : Nat) : (s.behind n).Quiet :=
  Quiet.filter (s := { s with cursor := s.cursor.advanceBy n }) ⟨hs.indent, hs.outer, hs.loose⟩ _

/-- A character that a token on the same line begins with. -/
def BeginsToken (c : Char) : Prop := IsPrintable c ∧ c ≠ ' ' ∧ c ≠ '#'

instance (c : Char) : Decidable (BeginsToken c) := inferInstanceAs (Decidable (_ ∧ _))

theorem Quiet.toNextToken (hs : s.Quiet) (n : Nat)
    (hrest : s.cursor.rest = List.replicate n ' ' ++ rest)
    (hnext : ∀ c ∈ rest.head?, BeginsToken c) : s.toNextToken = .ok (s.behind n) := by
  have hspace : rest.head? ≠ some ' ' := fun h => (hnext ' ' h).2.1 rfl
  have hmark : (s.cursor.peek == '\ufeff') = false := by
    rw [beq_eq_false_iff_ne, Cursor.peek, hrest]
    cases n with
    | succ n => exact (by decide : ' ' ≠ '\ufeff')
    | zero =>
        cases rest with
        | nil => decide
        | cons c rest =>
            rintro rfl
            exact absurd (hnext _ rfl).1 (by decide)
  have hbehind : (s.cursor.advanceBy n).rest = rest := by
    rw [Cursor.advanceBy_rest, hrest, List.drop_left' (List.length_replicate ..)]
  have hcomment : s.cursor.skipComment = s.cursor.advanceBy n := by
    unfold Cursor.skipComment
    rw [Cursor.skipWhile_spaces n hrest hspace]
    dsimp only
    rw [if_neg]
    rw [Cursor.peek, hbehind]
    cases rest with
    | nil => decide
    | cons c rest => simpa using (hnext c rfl).2.2
  have hbreak : (s.cursor.advanceBy n).lineBreak = ([], s.cursor.advanceBy n) := by
    cases rest with
    | nil => unfold Cursor.lineBreak; rw [hbehind]
    | cons c rest =>
        refine Cursor.lineBreak_of_not_isBreak hbehind (not_isBreak_of_isBlankOrEnd ?_)
        exact isBlankOrEnd_of_isPrintable (hnext c rfl).1 (hnext c rfl).2.1
  have hplace : nextPlace (s.size + 1) false s.cursor = (s.cursor.advanceBy n, false) := by
    unfold nextPlace
    dsimp only
    rw [hcomment, hbreak]
    rfl
  have hquiet : Quiet { s with cursor := s.cursor.advanceBy n } := ⟨hs.indent, hs.outer, hs.loose⟩
  unfold Scanner.toNextToken
  rw [hmark, Bool.and_false, if_neg Bool.false_ne_true]
  dsimp only
  rw [hplace]
  dsimp only
  rw [Bool.false_and, Bool.or_false, hquiet.dropStale]
  exact congrArg Except.ok ((hs.behind n).unwind _)

/-- What is to come behind the spaces. -/
theorem behind_rest {n : Nat} (hrest : s.cursor.rest = List.replicate n ' ' ++ rest) :
    (s.behind n).cursor.rest = rest := by
  show (s.cursor.advanceBy n).rest = rest
  rw [Cursor.advanceBy_rest, hrest, List.drop_left' (List.length_replicate ..)]

/-! ### Runs -/

/-- After at most so many steps, what one scanner writes is what another one does. -/
def Leads (n : Nat) (s t : Scanner) : Prop :=
  ∃ steps ≤ n, ∀ fuel, run (fuel + steps) s = run fuel t

theorem Leads.trans {m n : Nat} (h : Leads m s t) (h' : Leads n t u) : Leads (m + n) s u := by
  obtain ⟨steps, hsteps, hrun⟩ := h
  obtain ⟨steps', hsteps', hrun'⟩ := h'
  refine ⟨steps + steps', by omega, fun fuel => ?_⟩
  rw [Nat.add_comm steps, ← Nat.add_assoc, hrun, hrun']

theorem leads_of_step (hstep : s.step = .ok t) (hend : t.written.head? ≠ some .streamEnd) {n : Nat}
    (hn : 0 < n) : Leads n s t := by
  refine ⟨1, hn, fun fuel => ?_⟩
  rw [Scanner.run, hstep]
  exact if_neg hend

/--
A scanner comes to stand behind some characters more, with these tokens written, inside as many
flow collections as given.
-/
structure Scans (s : Scanner) (n : Nat) (ts : List Token) (flow : Nat) (t : Scanner) : Prop where
  leads : Leads n s t
  quiet : t.Quiet
  cursor : t.cursor = s.cursor.advanceBy n
  flow : t.flow = flow
  written : t.written = ts.reverse ++ s.written

theorem Quiet.scans (hs : s.Quiet) : s.Scans 0 [] s.flow s :=
  ⟨⟨0, Nat.le_refl 0, fun _ => rfl⟩, hs, rfl, rfl, rfl⟩

theorem Scans.trans {m n : Nat} {ts us : List Token} {flow flow' : Nat}
    (h : s.Scans m ts flow t) (h' : t.Scans n us flow' u) : s.Scans (m + n) (ts ++ us) flow' u where
  leads := h.leads.trans h'.leads
  quiet := h'.quiet
  cursor := by rw [h'.cursor, h.cursor, Cursor.advanceBy_add]
  flow := h'.flow
  written := by rw [h'.written, h.written, List.reverse_append, List.append_assoc]

theorem Scans.of_eq {n n' : Nat} {ts ts' : List Token} {flow flow' : Nat}
    (h : s.Scans n ts flow t) (hn : n = n') (hts : ts = ts') (hflow : flow = flow') :
    s.Scans n' ts' flow' t := by
  subst hn hts hflow
  exact h

/-- What is to come behind the characters that a scanner went over. -/
theorem Scans.cursor_rest {n : Nat} {ts : List Token} {flow : Nat} (h : s.Scans n ts flow t) {w : List Char}
    (hw : w.length = n) (hrest : s.cursor.rest = w ++ rest) : t.cursor.rest = rest := by
  rw [h.cursor, Cursor.advanceBy_rest, hrest, List.drop_left' hw]

/-! ### Single tokens -/

/-- The step behind some spaces is the token that begins there. -/
theorem Quiet.step (hs : s.Quiet) (n : Nat) {c : Char}
    (hrest : s.cursor.rest = List.replicate n ' ' ++ c :: rest) (hc : BeginsToken c) :
    s.step = (s.behind n).token := by
  have hnext := hs.toNextToken n hrest (by rintro d ⟨⟩; exact hc)
  unfold Scanner.step
  rw [hnext]
  rfl

/-- The brackets of flow collections, and their tokens. -/
def openBrackets : List (Char × Token) :=
  [('[', .flowSequenceStart), ('\x7b', .flowMappingStart)]

/-- The brackets that close flow collections, and their tokens. -/
def closeBrackets : List (Char × Token) := [(']', .flowSequenceEnd), ('\x7d', .flowMappingEnd)]

variable {mark : Char} {bracket : Token}

theorem token_open (hmark : (mark, bracket) ∈ openBrackets) (hrest : s.cursor.rest = mark :: rest) :
    s.token = s.flowStart bracket := by
  simp only [openBrackets, List.mem_cons, List.not_mem_nil, or_false, Prod.mk.injEq] at hmark
  rcases hmark with ⟨rfl, rfl⟩ | ⟨rfl, rfl⟩ <;>
    simp [Scanner.token, Cursor.peek, Cursor.atMarker, hrest]

theorem token_close (hmark : (mark, bracket) ∈ closeBrackets)
    (hrest : s.cursor.rest = mark :: rest) : s.token = s.flowEnd bracket := by
  simp only [closeBrackets, List.mem_cons, List.not_mem_nil, or_false, Prod.mk.injEq] at hmark
  rcases hmark with ⟨rfl, rfl⟩ | ⟨rfl, rfl⟩ <;>
    simp [Scanner.token, Cursor.peek, Cursor.atMarker, hrest]

theorem token_comma (hrest : s.cursor.rest = ',' :: rest) : s.token = s.flowEntry := by
  simp [Scanner.token, Cursor.peek, Cursor.atMarker, hrest]

theorem token_quote (hrest : s.cursor.rest = '"' :: rest) : s.token = s.quotedScalar true := by
  simp [Scanner.token, Cursor.peek, Cursor.atMarker, hrest]

theorem token_colon (hflow : s.inFlow = true) (hrest : s.cursor.rest = ':' :: rest) :
    s.token = s.valueMark := by
  simp [Scanner.token, Cursor.peek, Cursor.atMarker, hrest, hflow]

/-- An opening bracket begins a collection. -/
theorem Quiet.scans_open (hs : s.Quiet) (n : Nat) (hmark : (mark, bracket) ∈ openBrackets)
    (hrest : s.cursor.rest = List.replicate n ' ' ++ mark :: rest) :
    ∃ t, s.Scans (n + 1) [bracket] (s.flow + 1) t ∧ t.keyAllowed = true := by
  have hbegins : BeginsToken mark ∧ bracket ≠ .streamEnd :=
    (by decide : ∀ e ∈ openBrackets, BeginsToken e.1 ∧ e.2 ≠ .streamEnd) _ hmark
  have hquiet := hs.behind n
  have hstep := hs.step n hrest hbegins.1
  rw [token_open hmark (behind_rest hrest), Scanner.flowStart, hquiet.saveStart] at hstep
  exact ⟨_, ⟨leads_of_step hstep (fun h => hbegins.2 (Option.some.inj h)) n.succ_pos,
    ⟨hs.indent, hs.outer, hquiet.savedStarts⟩, Cursor.advanceBy_add _ n 1, rfl, rfl⟩, rfl⟩

/-- A closing bracket ends the collection that it stands in. -/
theorem Quiet.scans_close (hs : s.Quiet) (hmark : (mark, bracket) ∈ closeBrackets)
    (hrest : s.cursor.rest = mark :: rest) :
    ∃ t, s.Scans 1 [bracket] (s.flow - 1) t := by
  have hbegins : BeginsToken mark ∧ bracket ≠ .streamEnd :=
    (by decide : ∀ e ∈ closeBrackets, BeginsToken e.1 ∧ e.2 ≠ .streamEnd) _ hmark
  have hquiet := hs.behind 0
  have hstep := hs.step 0 hrest hbegins.1
  rw [token_close hmark (behind_rest hrest), Scanner.flowEnd, hquiet.dropStart] at hstep
  exact ⟨_, leads_of_step hstep (fun h => hbegins.2 (Option.some.inj h)) Nat.one_pos,
    ⟨hs.indent, hs.outer, (hquiet.filter _).loose⟩, Cursor.advanceBy_add _ 0 1, rfl, rfl⟩

/-- A comma is followed by another entry, which may have a key. -/
theorem Quiet.scans_comma (hs : s.Quiet) (hrest : s.cursor.rest = ',' :: rest) :
    ∃ t, s.Scans 1 [.flowEntry] s.flow t ∧ t.keyAllowed = true := by
  have hquiet := hs.behind 0
  have hallowed : Quiet { s.behind 0 with keyAllowed := true } :=
    ⟨hs.indent, hs.outer, hquiet.loose⟩
  have hstep : s.step = .ok ({ s.behind 0 with
      keyAllowed := true
      starts := (s.behind 0).starts.filter fun k => k.flow != s.flow }.take 1 .flowEntry) := by
    rw [hs.step 0 hrest (by decide), token_comma (behind_rest hrest), Scanner.flowEntry,
      hallowed.dropStart]
    rfl
  exact ⟨_, ⟨leads_of_step hstep (fun h => Token.noConfusion (Option.some.inj h)) Nat.one_pos,
    ⟨hs.indent, hs.outer, (hquiet.filter _).loose⟩, Cursor.advanceBy_add _ 0 1, rfl, rfl⟩, rfl⟩

/-! ### Scalars -/

/-- A scanner behind a text between quotes. -/
def behindQuoted (s : Scanner) (n : Nat) (text : String) : Scanner :=
  { s.behind n with
    starts := (s.behind n).savedStarts
    cursor := s.cursor.advanceBy (n + (quoted text).length)
    keyAllowed := false }.emit (.scalar text .quoted)

theorem Quiet.step_quoted (hs : s.Quiet) (n : Nat) {text : String} (htext : IsBasic text)
    (hrest : s.cursor.rest = List.replicate n ' ' ++ (quoted text ++ rest)) :
    s.step = .ok (s.behindQuoted n text) := by
  rw [quoted, List.cons_append, List.append_assoc, List.cons_append, List.nil_append] at hrest
  have hbehind := behind_rest hrest
  have htext' : (s.behind n).cursor.advance.rest = text.toList.flatMap escaped ++ '"' :: rest := by
    rw [Cursor.advance_rest, hbehind]
    rfl
  have hfuel : (text.toList.flatMap escaped).length < (s.behind n).cursor.advance.rest.length + 1 := by
    rw [htext', List.length_append]
    omega
  rw [hs.step n hrest (by decide), token_quote hbehind, Scanner.quotedScalar,
    (hs.behind n).saveStart]
  show (quotedText true _ [] (s.behind n).cursor.advance >>= _) = _
  rw [quotedText_escaped text.toList htext htext' hfuel]
  have hcursor : (s.behind n).cursor.advance.advanceBy ((text.toList.flatMap escaped).length + 1)
      = s.cursor.advanceBy (n + (quoted text).length) := by
    show ((s.cursor.advanceBy n).advanceBy 1).advanceBy _ = _
    rw [Cursor.advanceBy_add, Cursor.advanceBy_add]
    congr 1
    simp [quoted]
    omega
  rw [hcursor, List.reverse_nil, List.nil_append]
  show Except.ok (Scanner.emit _ (.scalar (String.ofList text.toList) .quoted)) = _
  rw [String.ofList_toList]
  rfl

theorem Quiet.behindQuoted (hs : s.Quiet) (n : Nat) (text : String) : (s.behindQuoted n text).Quiet :=
  ⟨hs.indent, hs.outer, (hs.behind n).savedStarts⟩

theorem Quiet.leads_quoted (hs : s.Quiet) (n : Nat) {text : String} (htext : IsBasic text)
    (hrest : s.cursor.rest = List.replicate n ' ' ++ (quoted text ++ rest)) :
    Leads (n + (quoted text).length) s (s.behindQuoted n text) := by
  refine leads_of_step (hs.step_quoted n htext hrest) ?_ ?_
  · exact fun h => Token.noConfusion (Option.some.inj h)
  · rw [quoted, List.length_cons]
    omega

/-- A text between quotes is a scalar. -/
theorem Quiet.scans_quoted (hs : s.Quiet) (n : Nat) {text : String} (htext : IsBasic text)
    (hrest : s.cursor.rest = List.replicate n ' ' ++ (quoted text ++ rest)) :
    ∃ t, s.Scans (n + (quoted text).length) [.scalar text .quoted] s.flow t :=
  ⟨_, hs.leads_quoted n htext hrest, hs.behindQuoted n text, rfl, rfl, rfl⟩

theorem behindQuoted_cursor (s : Scanner) (n : Nat) (text : String) :
    (s.behindQuoted n text).cursor = (s.behind n).cursor.advanceBy (quoted text).length :=
  (Cursor.advanceBy_add _ _ _).symm

/-- A place where a key began is remembered until the colon, if the key is not too long. -/
theorem not_isStale_keyStart {n : Nat} {text : String} (htext : IsBasic text)
    (hshort : (quoted text).length ≤ 1024)
    (hrest : s.cursor.rest = List.replicate n ' ' ++ (quoted text ++ rest)) :
    (s.behindQuoted n text).isStale (s.behind n).keyStart = false := by
  obtain ⟨hindex, hline⟩ := Cursor.advanceBy_printable (behind_rest hrest) (isPrintable_quoted htext)
  have hfar : ¬ 1024 + (s.behind n).cursor.index
      < (s.behind n).cursor.index + (quoted text).length := by omega
  unfold isStale
  rw [behindQuoted_cursor, hline, hindex]
  simp [keyStart, hfar]

/-- A colon makes a key of the place that is remembered in the same collection. -/
theorem valueMark_of_find? {start : KeyStart} (hflow : s.inFlow = true)
    (hstart : s.starts.find? (fun k => k.flow == s.flow) = some start) :
    s.valueMark = .ok { (Scanner.insert { s with
      starts := s.starts.filter fun k => k.flow != s.flow } start.token .key).take 1 .value with
        keyAllowed := false } := by
  have hinside : Scanner.inFlow { s with starts := s.starts.filter fun k => k.flow != s.flow }
      = true := hflow
  unfold Scanner.valueMark
  rw [hstart]
  dsimp only
  rw [if_pos hinside]
  rfl

/-- A text between quotes and a colon behind it are a key. -/
theorem Quiet.scans_key (hs : s.Quiet) (hflow : 0 < s.flow) (hallowed : s.keyAllowed = true)
    (n : Nat) {text : String} (htext : IsBasic text) (hshort : (quoted text).length ≤ 1024)
    (hrest : s.cursor.rest = List.replicate n ' ' ++ (quoted text ++ ':' :: rest)) :
    ∃ t, s.Scans (n + (quoted text).length + 1) [.key, .scalar text .quoted, .value] s.flow t := by
  have hquiet := hs.behindQuoted n text
  have hnext : (s.behindQuoted n text).cursor.rest = ':' :: rest := by
    rw [behindQuoted_cursor, Cursor.advanceBy_rest, behind_rest hrest, List.drop_left' rfl]
  have hinFlow : ((s.behindQuoted n text).behind 0).inFlow = true := inFlow_of_pos hflow
  have hstart : ((s.behindQuoted n text).behind 0).starts.find? (fun k => k.flow == s.flow)
      = some (s.behind n).keyStart := by
    show List.find? _ (List.filter (fun k => !(s.behindQuoted n text).isStale k)
      (s.behind n).savedStarts) = _
    rw [Scanner.savedStarts, behind_keyAllowed, if_pos hallowed, List.filter_cons_of_pos,
      List.find?_cons_of_pos]
    · simp [keyStart]
    · rw [not_isStale_keyStart htext hshort hrest]
      rfl
  have hstep := hquiet.step 0 hnext (by decide)
  rw [token_colon hinFlow (behind_rest hnext), valueMark_of_find? hinFlow hstart] at hstep
  -- The mark of the key goes in front of the one token that was written since its place.
  have hbehind : s.count + 1 - s.count = 1 := by omega
  have hwritten : List.take (s.count + 1 - s.count) (Token.scalar text .quoted :: s.written)
      ++ Token.key :: List.drop (s.count + 1 - s.count) (Token.scalar text .quoted :: s.written)
      = [.scalar text .quoted, .key] ++ s.written := by
    rw [hbehind]
    rfl
  have hcolon := leads_of_step hstep (fun h => Token.noConfusion (Option.some.inj h)) Nat.one_pos
  exact ⟨_, (hs.leads_quoted n htext hrest).trans hcolon,
    ⟨hs.indent, hs.outer, ((hquiet.behind 0).filter _).loose⟩, Cursor.advanceBy_add s.cursor _ 1,
    rfl, congrArg (Token.value :: ·) hwritten⟩

/-! ### Plain scalars -/

/-- A letter, a digit, or a minus in front of one begins a plain scalar. -/
theorem token_word {w : List Char} (hw : IsBareWord w) (hcursor : s.cursor.rest = w ++ rest) :
    s.token = s.plainScalar := by
  obtain ⟨negative, c, more, rfl, hc⟩ := hw.first
  have hne : ∀ d, d.isAlphanum = false → c ≠ d := fun _ => ne_of_test hc
  have hblank := isBlankOrEnd_of_isPrintable
    (isPrintable_of_isWordChar (c := c) (by simp [isWordChar, hc])) (hne ' ' (by decide))
  cases negative with
  | true =>
      replace hcursor : s.cursor.rest = '-' :: c :: (more ++ rest) := hcursor
      have hminus : c ≠ '-' := hne '-' (by decide)
      simp [Scanner.token, Scanner.atPlain, Cursor.peek, Cursor.peekAt, Cursor.atMarker, hcursor,
        hblank, Ne.symm hminus]
  | false =>
      replace hcursor : s.cursor.rest = c :: (more ++ rest) := hcursor
      simp [Scanner.token, Scanner.atPlain, Cursor.peek, Cursor.peekAt, Cursor.atMarker, hcursor,
        hblank, hne, fun d hd => (hne d hd).symm]

/-- A bare word inside brackets is a plain scalar. -/
theorem Quiet.scans_word (hs : s.Quiet) (hflow : 0 < s.flow) (n : Nat) {w : List Char}
    (hw : IsBareWord w) (hend : IsFlowEnd rest)
    (hrest : s.cursor.rest = List.replicate n ' ' ++ (w ++ rest)) :
    ∃ t, s.Scans (n + w.length) [.scalar (String.ofList w) .plain] s.flow t := by
  obtain ⟨c, more, heq⟩ := hw.exists_cons
  have hc := hw.chars c (by simp [heq])
  have hbegins : BeginsToken c :=
    ⟨isPrintable_of_isWordChar hc, ne_of_test hc (by decide), ne_of_test hc (by decide)⟩
  have hquiet := hs.behind n
  have hbehind := behind_rest hrest
  have hinFlow : Scanner.inFlow { s.behind n with starts := (s.behind n).savedStarts } = true :=
    inFlow_of_pos hflow
  have hread := plainText_word hw hend hbehind ((s.behind n).indent + 1)
    (more ++ rest).length
  have hlength : (s.behind n).cursor.rest.length = (more ++ rest).length + 1 := by
    rw [hbehind, heq]
    rfl
  have hstep : s.step = .ok ({ s.behind n with
      starts := (s.behind n).savedStarts
      cursor := (s.behind n).cursor.advanceBy w.length
      keyAllowed := false }.emit (.scalar (String.ofList w) .plain)) := by
    rw [hs.step n (by rw [hrest, heq]; rfl) hbegins, token_word hw hbehind, Scanner.plainScalar,
      hquiet.saveStart]
    dsimp only [bind, Except.bind]
    rw [hinFlow, hlength, hread]
    rfl
  have hleads := leads_of_step hstep (fun h => Token.noConfusion (Option.some.inj h))
    (by rw [heq, List.length_cons]; omega : 0 < n + w.length)
  exact ⟨_, hleads, ⟨hs.indent, hs.outer, hquiet.savedStarts⟩, Cursor.advanceBy_add _ n _, rfl, rfl⟩

/-! ### Collections -/

/-- What stands between two brackets is scanned inside one more collection. -/
theorem Quiet.scans_brackets (hs : s.Quiet) (n : Nat) (hopen : (mark, bracket) ∈ openBrackets)
    {mark' : Char} {bracket' : Token} (hclose : (mark', bracket') ∈ closeBrackets)
    {inner : List Char} {ts : List Token}
    (hrest : s.cursor.rest = List.replicate n ' ' ++ mark :: (inner ++ mark' :: rest))
    (hinner : ∀ {t : Scanner}, t.Quiet → 0 < t.flow → t.keyAllowed = true →
      t.cursor.rest = inner ++ mark' :: rest → ∃ u, t.Scans inner.length ts t.flow u) :
    ∃ t, s.Scans (n + (inner.length + 2)) (bracket :: (ts ++ [bracket'])) s.flow t := by
  obtain ⟨t, ht, hallowed⟩ := hs.scans_open n hopen hrest
  have htext := ht.cursor_rest (w := List.replicate n ' ' ++ [mark]) (by simp)
    (by rw [hrest, List.append_assoc]; rfl)
  obtain ⟨u, hu⟩ := hinner ht.quiet (by rw [ht.flow]; exact Nat.succ_pos _) hallowed htext
  obtain ⟨e, he⟩ := hu.quiet.scans_close hclose (hu.cursor_rest rfl htext)
  refine ⟨e, ((ht.trans hu).trans he).of_eq (by omega) rfl ?_⟩
  rw [hu.flow, ht.flow, Nat.add_sub_cancel]

/-! ### The end -/

/-- At the end of the text a scanner has written all its tokens. -/
theorem Quiet.run_end (hs : s.Quiet) (hrest : s.cursor.rest = []) (fuel : Nat) :
    run (fuel + 1) s = s.written.reverse ++ [.streamEnd] := by
  have hquiet := hs.behind 0
  have hnext := hs.toNextToken 0 hrest (by rintro d ⟨⟩)
  have hend : (s.behind 0).cursor.rest = [] := behind_rest (n := 0) hrest
  have htoken : (s.behind 0).token = (s.behind 0).streamEnd := by
    unfold Scanner.token
    dsimp only
    rw [hend]
    rfl
  obtain ⟨t, hstep, hwritten⟩ : ∃ t, s.step = .ok t ∧ t.written = .streamEnd :: s.written := by
    unfold Scanner.step
    rw [hnext]
    show ∃ t, (s.behind 0).token = .ok t ∧ _
    rw [htoken, Scanner.streamEnd, hquiet.unwind, hquiet.dropStart]
    exact ⟨_, rfl, rfl⟩
  rw [Scanner.run, hstep]
  dsimp only
  rw [hwritten]
  exact (if_pos rfl).trans List.reverse_cons

end Scanner

end ApiClientGen.Yaml
