/-
Faults of tokens.

A scanner only ever moves on in its text, and the text that is to come is an end of the whole one.
It breaks off where the text is no YAML, at an escape or at a number of a directive; of these only
an escape whose code is beyond all bounds is a fault that is not reported, and its eight digits
stand in the text.
-/
import ApiClientGen.Proofs.Document.Outcomes
import ApiClientGen.Proofs.Number.Words
import ApiClientGen.Yaml.Token.Stream

namespace ApiClientGen.Yaml

open ApiClientGen.Number

/-- An escape for a code beyond all bounds stands in a text. -/
def HasWideEscape (text : List Char) : Prop :=
  ∃ digits, '\\' :: 'U' :: digits <:+: text ∧ digits.length = 8 ∧ digits.all isHexDigit
    ∧ 0x7FFFFFFF < ofDigits 16 (digits.filterMap digitValue?)

/-- The faults of cutting a text into tokens. -/
def ScanFault (text : List Char) : Fault → Prop
  | .malformed | .codePoint | .integer _ => True
  | .codeOverflow => HasWideEscape text
  | _ => False

/-- A token that a scanner writes: no fault, and no plain scalar that ends in a line break. -/
def Token.IsWhole : Token → Prop
  | .scalar text .plain => text.toList.getLast? ≠ some '\n'
  | .broken _ => False
  | _ => True

variable {text : List Char}

/-! ### Places -/

namespace Cursor

variable {c : Cursor}

/-- A place lies in a text: what is to come is an end of it. -/
def In (text : List Char) (c : Cursor) : Prop := c.rest <:+ text

@[simp]
theorem advance_rest (c : Cursor) : c.advance.rest = c.rest.tail := by
  unfold Cursor.advance
  split
  · simp [*]
  · rename_i heq
    rw [heq]
    dsimp only
    split
    · rfl
    split <;> rfl

@[simp]
theorem advanceBy_rest (c : Cursor) (n : Nat) : (c.advanceBy n).rest = c.rest.drop n := by
  induction n generalizing c with
  | zero => rfl
  | succ n ih => rw [Cursor.advanceBy, ih, advance_rest, List.drop_tail]

theorem In.advance (hc : c.In text) : c.advance.In text := by
  rw [In, advance_rest]
  exact (List.tail_suffix _).trans hc

theorem In.advanceBy (hc : c.In text) (n : Nat) : (c.advanceBy n).In text := by
  rw [In, advanceBy_rest]
  exact (List.drop_suffix _ _).trans hc

theorem In.takeWhile (hc : c.In text) (p : Char → Bool) : (c.takeWhile p).2.In text :=
  hc.advanceBy _

theorem In.skipWhile (hc : c.In text) (p : Char → Bool) : (c.skipWhile p).In text :=
  hc.takeWhile p

theorem In.lineBreak (hc : c.In text) : c.lineBreak.2.In text := by
  unfold Cursor.lineBreak
  split
  · exact hc.advanceBy 2
  · split
    · exact hc.advance
    split
    · exact hc.advance
    · exact hc
  · exact hc

theorem In.skipComment (hc : c.In text) : c.skipComment.In text := by
  unfold Cursor.skipComment
  dsimp only
  split
  · exact (hc.skipWhile _).skipWhile _
  · exact hc.skipWhile _

theorem In.skipLineRest (hc : c.In text) : Ends (In text) (ScanFault text) c.skipLineRest := by
  unfold Cursor.skipLineRest
  dsimp only
  split
  · exact hc.skipComment.lineBreak
  · trivial

end Cursor

variable {c : Cursor}

/-! ### Plain scalars -/

/-- No character of a word ends a line. -/
theorem isBlankOrEnd_of_mem_plainWord {flow : Bool} {s : List Char} {ch : Char}
    (h : ch ∈ plainWord flow s) : isBlankOrEnd ch = false := by
  induction s with
  | nil => cases h
  | cons first rest ih =>
      unfold plainWord at h
      dsimp only at h
      split at h
      · cases h
      · rename_i hgoes
        rcases List.mem_cons.mp h with rfl | h
        · simp_all
        · exact ih h

theorem plainBreaks_in (fuel : Nat) (done : List Char) (hc : c.In text) :
    (plainBreaks fuel done c).2.In text := by
  induction fuel generalizing done c with
  | zero => exact hc
  | succ fuel ih =>
      unfold plainBreaks
      split
      · exact ih _ hc.advance
      · dsimp only
        split
        · exact hc
        split
        · exact hc.lineBreak
        · exact ih _ hc.lineBreak

theorem plainSpaces_in (hc : c.In text) : (plainSpaces c).2.1.In text := by
  unfold plainSpaces
  dsimp only
  split
  · exact hc.takeWhile _
  split
  · exact (hc.takeWhile _).lineBreak
  · exact plainBreaks_in _ _ (hc.takeWhile _).lineBreak

theorem plainText_whole (flow : Bool) (indent : Int) (fuel : Nat) {done : List Char}
    (spaces : List Char) (ended : Bool) (hdone : done.getLast? ≠ some '\n') (hc : c.In text) :
    (plainText flow indent fuel done spaces ended c).1.getLast? ≠ some '\n'
      ∧ (plainText flow indent fuel done spaces ended c).2.1.In text := by
  induction fuel generalizing done spaces ended c with
  | zero => exact ⟨hdone, hc⟩
  | succ fuel ih =>
      unfold plainText
      have hmarks : ∀ ch ∈ (if c.peek == '#' then [] else plainWord flow c.rest),
          isBlankOrEnd ch = false := by
        split
        · exact fun ch hch => nomatch hch
        · exact fun ch hch => isBlankOrEnd_of_mem_plainWord hch
      generalize (if c.peek == '#' then [] else plainWord flow c.rest) = word at hmarks
      dsimp only
      split
      · exact ⟨hdone, hc⟩
      · rename_i hword
        have hne : word ≠ [] := by simpa using hword
        have hlast : (done ++ spaces ++ word).getLast? ≠ some '\n' := by
          rw [List.getLast?_append, List.getLast?_eq_some_getLast hne, Option.some_or]
          intro hlast
          have hmem := List.getLast_mem hne
          rw [Option.some.inj hlast] at hmem
          exact absurd (hmarks _ hmem) (by decide)
        have hnext := plainSpaces_in (hc.advanceBy word.length)
        generalize plainSpaces (c.advanceBy word.length) = found at hnext
        obtain ⟨blanks, next, ended'⟩ := found
        cases blanks with
        | none => exact ⟨hlast, hnext⟩
        | some blanks =>
            dsimp only
            split
            · exact ⟨hlast, hnext⟩
            · exact ih _ _ hlast hnext

/-! ### Quoted scalars -/

/-- What is read in a text, with the place behind it. -/
def Behind {α : Type} (text : List Char) (r : α × Cursor) : Prop := r.2.In text

/-- The code of an escape is refused if it is not written out, names nothing, or is too wide. -/
theorem codeEscape_ends (width : Nat) (c : Cursor) :
    Ends (fun _ => True)
      (fun fault => fault = .malformed ∨ fault = .codePoint
        ∨ fault = .codeOverflow ∧ (c.rest.take width).length = width
          ∧ (c.rest.take width).all isHexDigit
          ∧ 0x7FFFFFFF < ofDigits 16 ((c.rest.take width).filterMap digitValue?))
      (codeEscape width c) := by
  unfold codeEscape
  dsimp only
  split
  · rename_i hdigits
    unfold charOfCode
    split
    · exact Or.inr (Or.inr ⟨rfl, hdigits.1, hdigits.2, ‹_›⟩)
    split
    · exact Or.inr (Or.inl rfl)
    split <;> trivial
  · exact Or.inl rfl

/-- Only an escape of eight digits is too wide. -/
theorem eq_of_wideEscape {mark : Char} {width : Nat} {digits : List Char}
    (hmark : escapeWidth? mark = some width) (hlength : digits.length = width)
    (hhex : digits.all isHexDigit = true)
    (hwide : 0x7FFFFFFF < ofDigits 16 (digits.filterMap digitValue?)) :
    mark = 'U' ∧ width = 8 := by
  have hbound : ofDigits 16 (digits.filterMap digitValue?) < 16 ^ digits.length :=
    ofDigits_hex_lt hhex
  rw [hlength] at hbound
  unfold escapeWidth? at hmark
  split at hmark <;> cases hmark
  · omega
  · omega
  · exact ⟨rfl, rfl⟩

theorem quotedBreaks_ends (fuel : Nat) (done : List Char) (hc : c.In text) :
    Ends (Behind text) (ScanFault text) (quotedBreaks fuel done c) := by
  induction fuel generalizing done c with
  | zero => exact hc
  | succ fuel ih =>
      unfold quotedBreaks
      split
      · trivial
      · dsimp only
        split
        · exact hc.skipWhile _
        · exact ih _ (hc.skipWhile _).lineBreak

theorem quotedSpaces_ends (hc : c.In text) :
    Ends (Behind text) (ScanFault text) (quotedSpaces c) := by
  unfold quotedSpaces
  dsimp only
  split
  · trivial
  split
  · exact hc.takeWhile _
  · exact (quotedBreaks_ends _ _ (hc.takeWhile _).lineBreak).bind fun _ hr => hr

theorem quotedEscape_ends (hback : '\\' :: c.rest <:+ text) :
    Ends (Behind text) (ScanFault text) (quotedEscape c) := by
  have hc : c.In text := (List.suffix_cons _ _).trans hback
  unfold quotedEscape
  dsimp only
  split
  · trivial
  rename_i hempty
  split
  · exact hc.advance
  split
  · rename_i width hwidth
    refine Ends.bind ((codeEscape_ends width c.advance).mono (fun _ h => h) fun fault hfault => ?_)
      fun _ _ => hc.advance.advanceBy _
    rcases hfault with rfl | rfl | ⟨rfl, hlength, hhex, hwide⟩
    · trivial
    · trivial
    · obtain ⟨hmark, rfl⟩ := eq_of_wideEscape hwidth hlength hhex hwide
      refine ⟨c.advance.rest.take 8, ?_, hlength, hhex, hwide⟩
      cases hrest : c.rest with
      | nil => simp [hrest] at hempty
      | cons ch rest =>
          obtain rfl : ch = 'U' := by simpa [Cursor.peek, hrest] using hmark
          rw [Cursor.advance_rest, hrest]
          rw [hrest] at hback
          have hprefix : '\\' :: 'U' :: rest.take 8 <+: '\\' :: 'U' :: rest :=
            List.prefix_append_right_inj ['\\', 'U'] |>.mpr (List.take_prefix 8 rest)
          exact hprefix.isInfix.trans hback.isInfix
  split
  · exact quotedBreaks_ends _ _ hc.lineBreak
  · trivial

theorem quotedText_ends (double : Bool) (fuel : Nat) (done : List Char) (hc : c.In text) :
    Ends (Behind text) (ScanFault text) (quotedText double fuel done c) := by
  induction fuel generalizing done c with
  | zero => trivial
  | succ fuel ih =>
      unfold quotedText
      generalize (if double then '"' else '\'') = closing
      split
      · trivial
      · rename_i ch rest hrest
        split
        · exact ih _ (hc.advanceBy 2)
        split
        · exact hc.advance
        split
        · rename_i hback
          obtain rfl : ch = '\\' := by simp_all
          have hsuffix : '\\' :: c.advance.rest <:+ text := by
            rw [Cursor.advance_rest, hrest]
            exact hrest ▸ hc
          exact (quotedEscape_ends hsuffix).bind fun _ hr => ih _ hr
        split
        · exact (quotedSpaces_ends hc).bind fun _ hr => ih _ hr
        · exact ih _ hc.advance

/-! ### Block scalars -/

theorem increment?_ends (hc : c.In text) :
    Ends (Behind text) (ScanFault text) (increment? c) := by
  unfold increment?
  dsimp only
  split
  · split
    · trivial
    · exact hc.advance
  · exact hc

theorem blockIndicators_ends (hc : c.In text) :
    Ends (fun r => r.2.2.In text) (ScanFault text) (blockIndicators c) := by
  have hlast : ∀ (chomping : Chomping) (increment : Option Nat) (c : Cursor), c.In text →
      Ends (fun r : Chomping × Option Nat × Cursor => r.2.2.In text) (ScanFault text)
        (if c.peek == ' ' || isBreakOrEnd c.peek then pure (chomping, increment, c)
          else throw .malformed) := by
    intro chomping increment c hc
    split
    · exact hc
    · trivial
  unfold blockIndicators
  dsimp only
  split
  · exact (increment?_ends hc.advance).bind fun _ hr => hlast _ _ _ hr
  · refine (increment?_ends hc).bind fun r hr => ?_
    split
    · exact hlast _ _ _ hr.advance
    · exact hlast _ _ _ hr

theorem blockIndentation_in (fuel : Nat) (breaks : List Char) (widest : Nat) (hc : c.In text) :
    (blockIndentation fuel breaks widest c).2.2.In text := by
  induction fuel generalizing breaks widest c with
  | zero => exact hc
  | succ fuel ih =>
      unfold blockIndentation
      split
      · exact ih _ _ hc.advance
      · dsimp only
        split
        · exact hc
        · exact ih _ _ hc.lineBreak

theorem skipIndent_in (indent fuel : Nat) (hc : c.In text) : (skipIndent indent fuel c).In text := by
  induction fuel generalizing c with
  | zero => exact hc
  | succ fuel ih =>
      unfold skipIndent
      split
      · exact ih hc.advance
      · exact hc

theorem blockBreaks_in (indent fuel : Nat) (breaks : List Char) (hc : c.In text) :
    Behind text (blockBreaks indent fuel breaks c) := by
  induction fuel generalizing breaks c with
  | zero => exact hc
  | succ fuel ih =>
      unfold blockBreaks
      dsimp only
      split
      · exact skipIndent_in _ _ hc
      · exact ih _ (skipIndent_in _ _ hc).lineBreak

theorem blockLines_in (folded : Bool) (indent fuel : Nat) (done brk breaks : List Char)
    (hc : c.In text) : (blockLines folded indent fuel done brk breaks c).2.2.2.In text := by
  induction fuel generalizing done brk breaks c with
  | zero => exact hc
  | succ fuel ih =>
      unfold blockLines
      dsimp only
      have hnext := fun fuel => blockBreaks_in indent fuel []
        (hc.takeWhile fun ch => !isBreak ch).lineBreak
      split
      · exact ih _ _ _ (hnext _)
      · exact hnext _

theorem blockText_ends (folded : Bool) (outer : Int) (hc : c.In text) :
    Ends (Behind text) (ScanFault text) (blockText folded outer c) := by
  unfold blockText
  refine (blockIndicators_ends hc).bind fun r hr => ?_
  obtain ⟨chomping, increment, c⟩ := r
  refine Cursor.In.skipLineRest hr |>.bind fun c hc => ?_
  -- The lines begin behind the empty ones, however their indentation is found.
  have hlines : ∀ (indent : Nat) (breaks : List Char) (first : Cursor), first.In text →
      (if first.column = indent ∧ ¬ first.rest.isEmpty then
        blockLines folded indent first.rest.length [] [] breaks first
      else ([], [], breaks, first)).2.2.2.In text := by
    intro indent breaks first hfirst
    split
    · exact blockLines_in _ _ _ _ _ _ hfirst
    · exact hfirst
  cases increment with
  | none => exact hlines _ _ _ (blockIndentation_in _ _ _ hc)
  | some n =>
      have hfirst : (blockBreaks ((outer + 1).toNat.max 1 + n - 1) (c.rest.length + 1) [] c).2.In
          text := blockBreaks_in _ _ _ hc
      exact hlines _ _ _ hfirst

namespace Scanner

/-! ### Tags and directives -/

theorem uriEscapes_ends (fuel : Nat) (done : List UInt8) (hc : c.In text) :
    Ends (Behind text) (ScanFault text) (uriEscapes fuel done c) := by
  induction fuel generalizing done c with
  | zero => exact hc
  | succ fuel ih =>
      unfold uriEscapes
      split
      · split
        · exact ih _ (hc.advanceBy 3)
        · trivial
      · trivial
      · exact hc

theorem uri_ends (fuel : Nat) (done : List Char) (hc : c.In text) :
    Ends (Behind text) (ScanFault text) (uri fuel done c) := by
  induction fuel generalizing done c with
  | zero => exact hc
  | succ fuel ih =>
      unfold uri
      split
      · refine (uriEscapes_ends _ _ hc).bind fun r hr => ?_
        dsimp only
        split
        · exact ih _ hr
        · trivial
      split
      · exact ih _ (hc.takeWhile _)
      · exact hc

theorem someUri_ends (hc : c.In text) : Ends (Behind text) (ScanFault text) (someUri c) := by
  unfold someUri
  dsimp only
  split
  · trivial
  · exact (uri_ends _ _ hc).bind fun _ hr => hr

theorem tagHandle_ends (hc : c.In text) : Ends (Behind text) (ScanFault text) (tagHandle c) := by
  unfold tagHandle
  dsimp only
  split
  · trivial
  split
  · exact hc.advance
  split
  · exact (hc.advance.takeWhile _).advance
  · trivial

theorem tagParts_ends (hc : c.In text) : Ends (Behind text) (ScanFault text) (tagParts c) := by
  have hhandle : ∀ x : Except Fault (String × Cursor), Ends (Behind text) (ScanFault text) x →
      Ends (Behind text) (ScanFault text) (x >>= fun r => someUri r.2 >>= fun r' =>
        pure ((some r.1, r'.1), r'.2)) :=
    fun x hx => hx.bind fun _ hr => (someUri_ends hr).bind fun _ hr => hr
  unfold tagParts
  dsimp only
  split
  · refine (someUri_ends (hc.advanceBy 2)).bind fun r hr => ?_
    split
    · trivial
    · exact hr.advance
  split
  · exact hc.advance
  split
  · exact hhandle _ (tagHandle_ends hc)
  · exact hhandle (.ok ("!", c.advance)) hc.advance

theorem directiveNumber_ends (hc : c.In text) :
    Ends (Behind text) (ScanFault text) (directiveNumber c) := by
  unfold directiveNumber
  dsimp only
  split
  · trivial
  · refine Ends.bind (P := fun _ => True) (Ends.mapError (F := fun _ => True)
      (Ends.intro (fun _ _ => trivial) fun _ _ => trivial) fun _ _ => trivial) fun _ _ => ?_
    exact hc.takeWhile _

/-- What a directive says is whole. -/
theorem directiveValue_ends (name : String) (hc : c.In text) :
    Ends (fun r => r.1.IsWhole ∧ r.2.In text) (ScanFault text) (directiveValue name c) := by
  unfold directiveValue
  dsimp only
  split
  · refine (directiveNumber_ends (hc.skipWhile _)).bind fun r hr => ?_
    split
    · trivial
    refine (directiveNumber_ends hr.advance).bind fun r' hr' => ?_
    split
    · trivial
    · exact ⟨trivial, hr'⟩
  split
  · refine (tagHandle_ends (hc.skipWhile _)).bind fun r hr => ?_
    split
    · trivial
    refine (someUri_ends (hr.skipWhile _)).bind fun r' hr' => ?_
    split
    · trivial
    · exact ⟨trivial, hr'⟩
  · exact ⟨trivial, hc.skipWhile _⟩

/-! ### Scanners -/

/-- A scanner stands in a text and has written whole tokens only. -/
structure Sound (text : List Char) (s : Scanner) : Prop where
  cursor : s.cursor.In text
  written : ∀ t ∈ s.written, t.IsWhole

variable {s : Scanner}

theorem Sound.emit (hs : s.Sound text) {t : Token} (ht : t.IsWhole) : (s.emit t).Sound text where
  cursor := hs.cursor
  written := List.forall_mem_cons.mpr ⟨ht, hs.written⟩

/-- A scanner that moved on in the text and wrote another token. -/
theorem Sound.moved (hs : s.Sound text) {next : Scanner} {t : Token} (ht : t.IsWhole)
    (hcursor : next.cursor.In text) (hwritten : next.written = t :: s.written) :
    next.Sound text where
  cursor := hcursor
  written := by
    rw [hwritten]
    exact List.forall_mem_cons.mpr ⟨ht, hs.written⟩

theorem Sound.take (hs : s.Sound text) (n : Nat) {t : Token} (ht : t.IsWhole) :
    (s.take n t).Sound text where
  cursor := hs.cursor.advanceBy n
  written := List.forall_mem_cons.mpr ⟨ht, hs.written⟩

theorem Sound.insert (hs : s.Sound text) (place : Nat) {t : Token} (ht : t.IsWhole) :
    (s.insert place t).Sound text where
  cursor := hs.cursor
  written := by
    intro u hu
    rcases List.mem_append.mp hu with hu | hu
    · exact hs.written u (List.mem_of_mem_take hu)
    rcases List.mem_cons.mp hu with rfl | hu
    · exact ht
    · exact hs.written u (List.mem_of_mem_drop hu)

theorem Sound.dropStart (hs : s.Sound text) : Ends (Sound text) (ScanFault text) s.dropStart := by
  unfold Scanner.dropStart
  split
  · trivial
  · exact ⟨hs.cursor, hs.written⟩

theorem Sound.dropStale (hs : s.Sound text) : Ends (Sound text) (ScanFault text) s.dropStale := by
  unfold Scanner.dropStale
  split
  · trivial
  · exact ⟨hs.cursor, hs.written⟩

theorem Sound.saveStart (hs : s.Sound text) : Ends (Sound text) (ScanFault text) s.saveStart := by
  unfold Scanner.saveStart
  split
  · exact hs.dropStart.bind fun _ hs => ⟨hs.cursor, hs.written⟩
  · exact hs

theorem Sound.unwind (hs : s.Sound text) (column : Int) : (s.unwind column).Sound text := by
  have hgo : ∀ (outer : List Int) (s : Scanner), s.Sound text →
      (unwind.go column outer s).Sound text := by
    intro outer
    induction outer with
    | nil => exact fun _ hs => hs
    | cons around more ih =>
        intro s hs
        unfold unwind.go
        split
        · exact ih _ ⟨hs.cursor, (hs.emit (t := .blockEnd) trivial).written⟩
        · exact hs
  unfold Scanner.unwind
  split
  · exact hs
  · exact hgo _ _ hs

theorem Sound.addIndent (hs : s.Sound text) (column : Nat) :
    (s.addIndent column).2.Sound text := by
  unfold Scanner.addIndent
  split
  · exact ⟨hs.cursor, hs.written⟩
  · exact hs

/-! ### Steps -/

theorem Sound.streamEnd (hs : s.Sound text) : Ends (Sound text) (ScanFault text) s.streamEnd :=
  (hs.unwind (-1)).dropStart.bind fun _ hs => ⟨hs.cursor, (hs.emit (t := .streamEnd) trivial).written⟩

theorem Sound.documentMarker (hs : s.Sound text) {t : Token} (ht : t.IsWhole) :
    Ends (Sound text) (ScanFault text) (s.documentMarker t) :=
  (hs.unwind (-1)).dropStart.bind fun _ hs => ⟨(hs.take 3 ht).cursor, (hs.take 3 ht).written⟩

theorem Sound.flowStart (hs : s.Sound text) {t : Token} (ht : t.IsWhole) :
    Ends (Sound text) (ScanFault text) (s.flowStart t) :=
  hs.saveStart.bind fun _ hs => ⟨(hs.take 1 ht).cursor, (hs.take 1 ht).written⟩

theorem Sound.flowEnd (hs : s.Sound text) {t : Token} (ht : t.IsWhole) :
    Ends (Sound text) (ScanFault text) (s.flowEnd t) :=
  hs.dropStart.bind fun _ hs => ⟨(hs.take 1 ht).cursor, (hs.take 1 ht).written⟩

theorem Sound.behindDrop (hs : s.Sound text) (allowed : Bool) {t : Token} (ht : t.IsWhole) :
    Ends (Sound text) (ScanFault text) (do
      let s ← { s with keyAllowed := allowed }.dropStart
      return s.take 1 t) :=
  Ends.bind (Sound.dropStart ⟨hs.cursor, hs.written⟩) fun _ hs => hs.take 1 ht

theorem Sound.flowEntry (hs : s.Sound text) : Ends (Sound text) (ScanFault text) s.flowEntry :=
  hs.behindDrop true (t := .flowEntry) trivial

/-- A block begins at the mark of an entry or a key if it is indented further. -/
theorem Sound.beginBlock (hs : s.Sound text) {t : Token} (ht : t.IsWhole)
    {go : Scanner → Except Fault Scanner}
    (hgo : ∀ s, s.Sound text → Ends (Sound text) (ScanFault text) (go s)) :
    Ends (Sound text) (ScanFault text)
      (if s.inFlow then go s
      else if !s.keyAllowed then throw .malformed
      else
        go (if (s.addIndent s.cursor.column).1 then (s.addIndent s.cursor.column).2.emit t
          else (s.addIndent s.cursor.column).2)) := by
  have hindented := hs.addIndent s.cursor.column
  split
  · exact hgo _ hs
  split
  · trivial
  refine hgo _ ?_
  split
  · exact hindented.emit ht
  · exact hindented

theorem Sound.blockEntry (hs : s.Sound text) : Ends (Sound text) (ScanFault text) s.blockEntry :=
  hs.beginBlock (t := .blockSequenceStart) trivial fun _ hs =>
    hs.behindDrop true (t := .blockEntry) trivial

theorem Sound.keyMark (hs : s.Sound text) : Ends (Sound text) (ScanFault text) s.keyMark :=
  hs.beginBlock (t := .blockMappingStart) trivial fun s hs =>
    hs.behindDrop (!s.inFlow) (t := .key) trivial

theorem Sound.valueMark (hs : s.Sound text) : Ends (Sound text) (ScanFault text) s.valueMark := by
  unfold Scanner.valueMark
  split
  · rename_i start _
    have hmark : ∀ (begins : Bool) (s : Scanner), s.Sound text →
        Sound text
          { (if begins then (s.insert start.token .key).insert start.token .blockMappingStart
            else s.insert start.token .key).take 1 .value with keyAllowed := false } := by
      intro begins s hs
      have hkey := hs.insert start.token (t := .key) trivial
      have hblock := hkey.insert start.token (t := .blockMappingStart) trivial
      cases begins with
      | true => exact hblock.moved (t := .value) trivial (hblock.cursor.advanceBy 1) rfl
      | false => exact hkey.moved (t := .value) trivial (hkey.cursor.advanceBy 1) rfl
    have hfree : Sound text { s with starts := s.starts.filter fun k => k.flow != s.flow } :=
      ⟨hs.cursor, hs.written⟩
    dsimp only
    split
    · exact hmark false _ hfree
    · exact hmark _ _ (hfree.addIndent start.column)
  · exact hs.beginBlock (t := .blockMappingStart) trivial fun s hs =>
      hs.behindDrop (!s.inFlow) (t := .value) trivial

theorem Sound.anchorName (hs : s.Sound text) (make : String → Token)
    (hmake : ∀ name, (make name).IsWhole) :
    Ends (Sound text) (ScanFault text) (s.anchorName make) := by
  unfold Scanner.anchorName
  refine hs.saveStart.bind fun s hs => ?_
  dsimp only
  split
  · trivial
  · exact hs.moved (hmake _) (hs.cursor.advance.takeWhile _) rfl

theorem Sound.tag (hs : s.Sound text) : Ends (Sound text) (ScanFault text) s.tag := by
  unfold Scanner.tag
  refine hs.saveStart.bind fun s hs => ?_
  refine (tagParts_ends hs.cursor).bind fun r hr => ?_
  dsimp only
  split
  · trivial
  · exact hs.moved (t := .tag r.1.1 r.1.2) trivial hr rfl

theorem Sound.directive (hs : s.Sound text) : Ends (Sound text) (ScanFault text) s.directive := by
  unfold Scanner.directive
  refine (hs.unwind (-1)).dropStart.bind fun s hs => ?_
  dsimp only
  split
  · trivial
  refine (directiveValue_ends _ (hs.cursor.advance.takeWhile _)).bind fun r hr => ?_
  refine hr.2.skipLineRest.bind fun c hc => ?_
  exact hs.moved hr.1 hc rfl

theorem Sound.blockScalar (hs : s.Sound text) (folded : Bool) :
    Ends (Sound text) (ScanFault text) (s.blockScalar folded) := by
  unfold Scanner.blockScalar
  refine Ends.bind (Sound.dropStart ⟨hs.cursor, hs.written⟩) fun s hs => ?_
  refine (blockText_ends folded s.indent hs.cursor.advance).bind fun r hr => ?_
  exact hs.moved (t := .scalar (String.ofList r.1) .quoted) trivial hr rfl

theorem Sound.quotedScalar (hs : s.Sound text) (double : Bool) :
    Ends (Sound text) (ScanFault text) (s.quotedScalar double) := by
  unfold Scanner.quotedScalar
  refine hs.saveStart.bind fun s hs => ?_
  refine (quotedText_ends double _ _ hs.cursor.advance).bind fun r hr => ?_
  exact hs.moved (t := .scalar (String.ofList r.1) .quoted) trivial hr rfl

theorem Sound.plainScalar (hs : s.Sound text) :
    Ends (Sound text) (ScanFault text) s.plainScalar := by
  unfold Scanner.plainScalar
  refine hs.saveStart.bind fun s hs => ?_
  have hnone : ([] : List Char).getLast? ≠ some '\n' := by simp
  obtain ⟨hlast, hcursor⟩ := plainText_whole s.inFlow (s.indent + 1) s.cursor.rest.length [] false
    hnone hs.cursor
  refine hs.moved (t := .scalar (String.ofList _) .plain) ?_ hcursor rfl
  rw [Token.IsWhole, String.toList_ofList]
  exact hlast

theorem nextPlace_in (fuel : Nat) (ended : Bool) (hc : c.In text) :
    (nextPlace fuel ended c).1.In text := by
  induction fuel generalizing ended c with
  | zero => exact hc
  | succ fuel ih =>
      unfold nextPlace
      dsimp only
      split
      · exact hc.skipComment
      · exact ih _ hc.skipComment.lineBreak

theorem Sound.toNextToken (hs : s.Sound text) :
    Ends (Sound text) (ScanFault text) s.toNextToken := by
  have hstart : (if s.cursor.index == 0 && s.cursor.peek == '\ufeff' then s.cursor.advance
      else s.cursor).In text := by
    split
    · exact hs.cursor.advance
    · exact hs.cursor
  unfold Scanner.toNextToken
  dsimp only
  have hplace := nextPlace_in (s.size + 1) false hstart
  exact Ends.bind (Sound.dropStale ⟨hplace, hs.written⟩) fun _ hs => hs.unwind _

theorem Sound.token (hs : s.Sound text) : Ends (Sound text) (ScanFault text) s.token := by
  unfold Scanner.token
  exact hs.streamEnd.ite <| hs.directive.ite
    <| (hs.documentMarker (t := .documentStart) trivial).ite
    <| (hs.documentMarker (t := .documentEnd) trivial).ite
    <| (hs.flowStart (t := .flowSequenceStart) trivial).ite
    <| (hs.flowStart (t := .flowMappingStart) trivial).ite
    <| (hs.flowEnd (t := .flowSequenceEnd) trivial).ite
    <| (hs.flowEnd (t := .flowMappingEnd) trivial).ite
    <| hs.flowEntry.ite <| hs.blockEntry.ite <| hs.keyMark.ite <| hs.valueMark.ite
    <| (hs.anchorName .alias fun _ => trivial).ite <| (hs.anchorName .anchor fun _ => trivial).ite
    <| hs.tag.ite <| (hs.blockScalar false).ite <| (hs.blockScalar true).ite
    <| (hs.quotedScalar false).ite <| (hs.quotedScalar true).ite
    <| Ends.ite hs.plainScalar trivial

/-- A step of a scanner fails for a fault of its text, and else writes whole tokens. -/
theorem Sound.step (hs : s.Sound text) : Ends (Sound text) (ScanFault text) s.step :=
  hs.toNextToken.bind fun _ hs => hs.token

theorem brokenBy_sound (hs : s.Sound text) {fault : Fault} (hfault : ScanFault text fault) :
    ∀ t ∈ s.brokenBy fault, t.IsWhole ∨ ∃ fault, t = .broken fault ∧ ScanFault text fault := by
  intro t ht
  rcases List.mem_append.mp ht with ht | ht
  · exact Or.inl (hs.written t (List.mem_of_mem_drop (List.mem_reverse.mp ht)))
  · exact Or.inr ⟨fault, List.mem_singleton.mp ht, hfault⟩

/-- All tokens that a scanner writes are whole, but for the fault that they may end in. -/
theorem Sound.run (hs : s.Sound text) (fuel : Nat) :
    ∀ t ∈ run fuel s, t.IsWhole ∨ ∃ fault, t = .broken fault ∧ ScanFault text fault := by
  induction fuel generalizing s with
  | zero => exact brokenBy_sound hs trivial
  | succ fuel ih =>
      have hstep := hs.step
      unfold Scanner.run
      split
      · rename_i fault heq
        exact brokenBy_sound hs (hstep.of_error heq)
      · rename_i next heq
        have hnext := hstep.of_ok heq
        split
        · exact fun t ht => Or.inl (hnext.written t (List.mem_reverse.mp ht))
        · exact ih hnext

end Scanner

/-- **The tokens of a text** are whole, but for a fault of the text that they may end in. -/
theorem tokens_sound (text : List Char) :
    ∀ t ∈ tokens text, t.IsWhole ∨ ∃ fault, t = .broken fault ∧ ScanFault text fault := by
  unfold tokens
  split
  · exact Scanner.Sound.run ⟨List.suffix_refl _, fun _ ht => (List.not_mem_nil ht).elim⟩ _
  · intro t ht
    exact Or.inr ⟨.malformed, List.mem_singleton.mp ht, trivial⟩

end ApiClientGen.Yaml
