/-
Lines of plain settings.

A plain setting is a text, a truth value or a list of texts under a key without quotes, and it is
written on a line of its own.  The pass that finds the lines of a text changes nothing in such a
line: it has no comment, and no line break stands inside of its quotes or brackets.
-/
import ApiClientGen.Proofs.Document.Answers
import ApiClientGen.Proofs.Reference.Pointers
import ApiClientGen.Proofs.Toml.WrittenTexts

namespace ApiClientGen.Toml

open ApiClientGen.Document ApiClientGen.Text

/-! ### Plain settings -/

/-- What stands under a key of plain settings. -/
inductive Setting where
  | text (s : String)
  | truth (b : Bool)
  | texts (ss : List String)
  deriving DecidableEq, Repr

/-- A text between its quotes. -/
def quotedText (s : String) : List Char := '"' :: (body s.toList ++ ['"'])

/-- The items of a list of texts, as they stand between its brackets. -/
def itemWords (ss : List String) : List Char := ss.flatMap fun s => ' ' :: (quotedText s ++ [','])

namespace Setting

/-- The value of a setting. -/
def value : Setting → Value
  | text s => .string s
  | truth b => .bool b
  | texts ss => .list (ss.map .string)

/-- A setting as it is written. -/
def written : Setting → List Char
  | text s => quotedText s
  | truth b => if b then "true".toList else "false".toList
  | texts ss => '[' :: (itemWords ss ++ [']'])

/-- Whether a comma is the first thing in a text but for spaces. -/
def beginsWithComma (s : List Char) : Bool := (s.dropWhile (· = ' ')).head? == some ','

/-- Settings that are read back as what they are; an item of a list may not begin with a comma. -/
def IsReadable : Setting → Prop
  | text s => Toml.IsReadable s.toList
  | truth _ => True
  | texts ss => ∀ s ∈ ss, Toml.IsReadable s.toList ∧ beginsWithComma s.toList = false

instance : DecidablePred IsReadable := fun setting => by
  cases setting <;> unfold IsReadable <;> infer_instance

end Setting

/-- Settings under their keys. -/
abbrev PlainTable := List (String × Setting)

namespace PlainTable

/-- The table that settings are. -/
def fields (t : PlainTable) : Fields Value := t.map fun e => (e.1, e.2.value)

/-- Settings that are read back: their keys are distinct and stand without quotes. -/
structure IsReadable (t : PlainTable) : Prop where
  nodup : (t.map Prod.fst).Nodup
  bare : ∀ e ∈ t, isBareKey e.1 = true
  settings : ∀ e ∈ t, e.2.IsReadable

end PlainTable

/-- The line of a setting. -/
def lineWord (e : String × Setting) : List Char := e.1.toList ++ (' ' :: '=' :: ' ' :: e.2.written)

/-- The lines of plain settings. -/
def tableText (t : PlainTable) : List Char := t.flatMap fun e => lineWord e ++ ['\n']

/-! ### What is written -/

theorem writtenText_of_isReadable {s : String} (h : IsReadable s.toList) :
    writtenText s = .ok (String.ofList (quotedText s)) := by
  have hword : text? s = some (String.ofList (quotedText s)) := text?_of_isReadable h
  rw [writtenText, hword]

theorem writtenItems_texts {ss : List String} (h : ∀ s ∈ ss, IsReadable s.toList) :
    writtenItems (ss.map .string)
      = .ok (ss.map fun s => String.ofList (' ' :: (quotedText s ++ [',']))) := by
  induction ss with
  | nil => rfl
  | cons s ss ih =>
      obtain ⟨hs, hss⟩ := List.forall_mem_cons.mp h
      have hitem : " " ++ String.ofList (quotedText s) ++ ","
          = String.ofList (' ' :: (quotedText s ++ [','])) := by
        rw [← String.toList_inj]
        simp
      rw [List.map_cons, List.map_cons, writtenItems, ih hss, writtenValue, writtenScalar,
        writtenText_of_isReadable hs, ← hitem]
      rfl

theorem writtenValue_value {setting : Setting} (h : setting.IsReadable) :
    writtenValue setting.value = .ok (String.ofList setting.written) := by
  cases setting with
  | text s => exact writtenText_of_isReadable h
  | truth b => cases b <;> rfl
  | texts ss =>
      rw [Setting.value, writtenValue, writtenItems_texts fun s hs => (h s hs).1]
      show Except.ok _ = Except.ok _
      rw [Except.ok.injEq, ← String.toList_inj]
      simp [Setting.written, itemWords, List.flatMap_map]

theorem isMapping_value (setting : Setting) : setting.value.isMapping = false := by
  cases setting <;> rfl

theorem isTableList_value (setting : Setting) : isTableList setting.value = false := by
  cases setting with
  | text s => rfl
  | truth b => rfl
  | texts ss =>
      show (ss.map Value.string).any Value.isMapping = false
      rw [List.any_map, List.any_eq_false]
      exact fun s _ => by simp [Value.isMapping]

/-- A field that is neither a table nor a list of tables becomes a line. -/
theorem fieldParts_line {e : String × Value} {key value : String} (hkey : writtenKey e.1 = .ok key)
    (hvalue : writtenValue e.2 = .ok value) (hmapping : e.2.isMapping = false)
    (hlist : isTableList e.2 = false) (item : String → Value → Except WriteFault String)
    (outer : String) : fieldParts item outer e = .ok { line := key ++ " = " ++ value ++ "\n" } := by
  obtain ⟨k, v⟩ := e
  unfold fieldParts
  rw [hkey]
  cases v with
  | mapping inner => cases hmapping
  | scalar s =>
      dsimp only at hlist hvalue ⊢
      rw [hvalue]
      rfl
  | list items =>
      dsimp only at hlist hvalue ⊢
      rw [hvalue]
      simp only [bind, Except.bind]
      rw [hlist]
      rfl

/-- All settings go to the lines of the table itself, and none of them is a table inside of it. -/
theorem tableSection_fields {t : PlainTable} (h : t.IsReadable) (levels : Nat) (outer : String) :
    tableSection (levels + 1) outer t.fields = .ok (String.ofList (tableText t), []) := by
  have hparts : t.fields.mapM (fieldParts (tableItem (tableSection levels) levels) outer)
      = .ok (t.map fun e => { line := String.ofList (lineWord e ++ ['\n']) }) := by
    refine mapM_map_pure fun e he => ?_
    have hkey : writtenKey e.1 = .ok e.1 := if_pos (h.bare e he)
    have hline : e.1 ++ " = " ++ String.ofList e.2.written ++ "\n"
        = String.ofList (lineWord e ++ ['\n']) := by
      rw [← String.toList_inj]
      simp [lineWord]
    rw [fieldParts_line (e := (e.1, e.2.value)) hkey (writtenValue_value (h.settings e he))
      (isMapping_value e.2) (isTableList_value e.2), hline]
    rfl
  rw [tableSection, hparts]
  show Except.ok _ = Except.ok _
  rw [Except.ok.injEq, Prod.mk.injEq, ← String.toList_inj]
  simp [tableText, List.flatMap_map]

/-- **Plain settings are written** line by line. -/
theorem write_fields {t : PlainTable} (h : t.IsReadable) :
    write t.fields = .ok (String.ofList (tableText t)) := by
  unfold write
  dsimp only
  rw [tableSection_fields h]
  rfl

/-! ### The pass over a line -/

/-- A pass goes over some characters, whatever stands behind them. -/
def Scans (m : Marking) (s : List Char) (m' : Marking) : Prop :=
  ∀ rest, m.run (s ++ rest) = m'.run rest

theorem Scans.nil (m : Marking) : Scans m [] m := fun _ => rfl

theorem Scans.append {m m' m'' : Marking} {s t : List Char} (h : Scans m s m') (h' : Scans m' t m'') :
    Scans m (s ++ t) m'' := by
  intro rest
  rw [List.append_assoc, h, h']

theorem Scans.step {m m' : Marking} {c : Char} (h : ∀ next, m.step c next = .ok m') :
    Scans m [c] m' := by
  intro rest
  rw [List.singleton_append, Marking.run, h]
  rfl

/-- A pass between two lines. -/
def atLine (done wrapped : List Char) : Marking := { done, wrapped }

/-- A pass inside of a key. -/
def atKey (done wrapped : List Char) : Marking := { done, wrapped, atStart := false, key := .inside }

/-- A pass behind the equals sign of a line, inside of as many brackets as given. -/
def atValue (depth : Int) (done wrapped : List Char) : Marking :=
  { done, wrapped, depth, atStart := false }

/-- A pass inside of a text. -/
def atText (depth : Int) (done wrapped : List Char) : Marking :=
  { done, wrapped, depth, atStart := false, quote := some '"' }

section Passes

variable {done wrapped : List Char} {depth : Int} {c : Char}

/-- Whether a character may stand in a key without quotes. -/
def isBareChar (c : Char) : Bool := c.isAlphanum || c == '_' || c == '-'

theorem isBareKey_iff {key : String} :
    isBareKey key = true ↔ key.toList ≠ [] ∧ ∀ c ∈ key.toList, isBareChar c = true := by
  unfold isBareKey
  rw [Bool.and_eq_true, List.all_eq_true]
  refine and_congr ?_ Iff.rfl
  rw [Bool.not_eq_true', String.isEmpty_eq_false_iff, ne_eq, ne_eq, ← String.toList_inj]
  rfl

theorem ne_of_isBareChar (hc : isBareChar c = true) {d : Char} (hd : isBareChar d = false) : c ≠ d :=
  Number.ne_of_test hc hd

theorem isBareChar_spec (hc : isBareChar c = true) :
    isBlank c = false ∧ isPrintable c = true
      ∧ (Table.alphanumeric.covers c.toNat || c == '_' || c == '-') = true := by
  have hbound : c.toNat < 128 := by
    by_cases hline : c = '_'
    · subst hline
      decide
    · have hword : Number.isWordChar c = true := by
        simp only [isBareChar, Bool.or_eq_true, beq_iff_eq, hline, or_false] at hc
        rcases hc with halphanum | hdash
        · simp [Number.isWordChar, halphanum]
        · simp [Number.isWordChar, hdash]
      have hlt := (Number.toNat_lt_of_isWordChar hword).2
      omega
  refine Number.of_ascii (P := fun c => isBareChar c = true → isBlank c = false ∧ isPrintable c = true
    ∧ (Table.alphanumeric.covers c.toNat || c == '_' || c == '-') = true) ?_ hbound hc
  decide

/-! ### Keys -/

theorem scans_keyStart (hc : isBareChar c = true) :
    Scans (atLine done wrapped) [c] (atKey (c :: done) wrapped) := by
  refine Scans.step fun next => ?_
  have hne := fun d => ne_of_isBareChar (d := d) hc
  simp [Marking.step, Marking.stepPlain, Marking.stepQuote, Marking.stepBracket, Marking.stepStart,
    atLine, atKey, Marking.push, hne '\'' (by decide), hne '"' (by decide), hne '#' (by decide),
    hne '[' (by decide), hne ']' (by decide), hne '\n' (by decide), hne ' ' (by decide),
    hne '\t' (by decide), hne '=' (by decide)]

theorem scans_keyChar (hc : isBareChar c = true) :
    Scans (atKey done wrapped) [c] (atKey (c :: done) wrapped) := by
  refine Scans.step fun next => ?_
  have hne := fun d => ne_of_isBareChar (d := d) hc
  obtain ⟨hblank, -, hkey⟩ := isBareChar_spec hc
  have hstep : (atKey done wrapped).stepKey c next = .ok (atKey done wrapped) := by
    simp [Marking.stepKey, atKey, hne '\n' (by decide), hne '.' (by decide), hblank, hkey]
  show (do
    let m' ← (atKey done wrapped).stepKey c next
    if m'.key = KeyState.none then m'.stepPlain c next else return m'.push c) = _
  rw [hstep]
  rfl

theorem scans_keyChars {s : List Char} (hs : ∀ c ∈ s, isBareChar c = true) :
    Scans (atKey done wrapped) s (atKey (s.reverse ++ done) wrapped) := by
  induction s generalizing done with
  | nil => exact Scans.nil _
  | cons c s ih =>
      obtain ⟨hc, hs⟩ := List.forall_mem_cons.mp hs
      rw [List.reverse_cons, List.append_assoc]
      exact (scans_keyChar hc).append (ih hs)

theorem scans_key {key : String} (h : isBareKey key = true) :
    Scans (atLine done wrapped) key.toList (atKey (key.toList.reverse ++ done) wrapped) := by
  obtain ⟨hne, hchars⟩ := isBareKey_iff.mp h
  obtain ⟨c, s, hkey⟩ := List.exists_cons_of_ne_nil hne
  rw [hkey] at hchars ⊢
  obtain ⟨hc, hs⟩ := List.forall_mem_cons.mp hchars
  rw [List.reverse_cons, List.append_assoc]
  exact (scans_keyStart hc).append (scans_keyChars hs)

/-- Behind a key there is a blank, the equals sign and another blank. -/
theorem scans_equals :
    Scans (atKey done wrapped) [' ', '=', ' '] (atValue 0 (' ' :: '=' :: ' ' :: done) wrapped) := by
  intro rest
  rfl

/-! ### Values -/

theorem scans_valueChar (hc : c ∉ ['\'', '"', '#', '[', ']', '\n']) :
    Scans (atValue depth done wrapped) [c] (atValue depth (c :: done) wrapped) := by
  refine Scans.step fun next => ?_
  simp only [List.mem_cons, List.not_mem_nil, not_or, or_false] at hc
  obtain ⟨hsingle, hdouble, hcomment, hopen, hclose, hbreak⟩ := hc
  simp [Marking.step, Marking.stepPlain, Marking.stepQuote, Marking.stepBracket, Marking.stepStart,
    atValue, Marking.push, hsingle, hdouble, hcomment, hopen, hclose, hbreak]

theorem scans_openBracket :
    Scans (atValue depth done wrapped) ['['] (atValue (depth + 1) ('[' :: done) wrapped) := by
  intro rest
  rfl

theorem scans_closeBracket :
    Scans (atValue depth done wrapped) [']'] (atValue (depth - 1) (']' :: done) wrapped) := by
  intro rest
  rfl

theorem scans_break : Scans (atValue 0 done wrapped) ['\n'] (atLine ('\n' :: done) wrapped) := by
  intro rest
  rfl

/-- A quote behind a blank opens a text. -/
theorem scans_openQuote :
    Scans (atValue depth (' ' :: done) wrapped) ['"'] (atText depth ('"' :: ' ' :: done) wrapped) := by
  refine Scans.step fun next => ?_
  have hthird : (atValue depth (' ' :: done) wrapped).isThird '"' = false := by
    simp [Marking.isThird, Marking.behind, atValue]
  have hescaped : (atValue depth (' ' :: done) wrapped).isEscapedQuote = false := by
    unfold Marking.isEscapedQuote
    rw [hthird]
    rfl
  have hquote : (atValue depth (' ' :: done) wrapped).stepQuote '"'
      = atText depth (' ' :: done) wrapped := by
    unfold Marking.stepQuote
    rw [hescaped, hthird]
    rfl
  show (atValue depth (' ' :: done) wrapped).stepPlain '"' next = _
  unfold Marking.stepPlain
  rw [hquote]
  rfl

/-- A character of a text that is no quote and no break. -/
theorem scans_textChar (hquote : c ≠ '"') (hbreak : c ≠ '\n') :
    Scans (atText depth done wrapped) [c] (atText depth (c :: done) wrapped) := by
  refine Scans.step fun next => ?_
  simp [Marking.step, Marking.stepPlain, Marking.stepQuote, Marking.stepBracket, Marking.stepStart,
    Marking.isPlain, atText, Marking.push, hquote, hbreak]

/-- A quote that is escaped changes nothing. -/
theorem scans_escapedQuote (h : isOddRun (done ++ wrapped) = true) :
    Scans (atText depth done wrapped) ['"'] (atText depth ('"' :: done) wrapped) := by
  refine Scans.step fun next => ?_
  obtain ⟨rest, hrest⟩ : ∃ rest, done ++ wrapped = '\\' :: rest := by
    cases hbehind : done ++ wrapped with
    | nil =>
        rw [hbehind] at h
        cases h
    | cons d rest =>
        by_cases hd : d = '\\'
        · exact ⟨rest, by rw [hd]⟩
        · rw [hbehind, isOddRun_of_ne hd] at h
          cases h
  have hbehind : (atText depth done wrapped).behind = '\\' :: rest := hrest
  have hthird : (atText depth done wrapped).isThird '"' = false := by
    rw [Marking.isThird, hbehind]
    simp
  have hescaped : (atText depth done wrapped).isEscapedQuote = true := by
    unfold Marking.isEscapedQuote
    rw [hthird, hbehind, if_neg (by decide), if_neg (by simp), ← hrest, h]
  have hquote : (atText depth done wrapped).stepQuote '"' = atText depth done wrapped := by
    unfold Marking.stepQuote
    rw [if_neg (by simp), if_pos (by simp [atText]), hescaped]
    rfl
  show (atText depth done wrapped).stepPlain '"' next = _
  unfold Marking.stepPlain
  rw [hquote]
  rfl

/-- A quote that is not escaped, and is not the third one, ends a text. -/
theorem scans_closeQuote (h : isOddRun (done ++ wrapped) = false)
    (hthird : (done ++ wrapped).take 2 ≠ ['"', '"']) :
    Scans (atText depth done wrapped) ['"'] (atValue depth ('"' :: done) wrapped) := by
  refine Scans.step fun next => ?_
  have hthird : (atText depth done wrapped).isThird '"' = false := beq_eq_false_iff_ne.mpr hthird
  have hescaped : (atText depth done wrapped).isEscapedQuote = false := by
    have hbehind : isOddRun (atText depth done wrapped).behind = false := h
    unfold Marking.isEscapedQuote
    rw [hthird, if_neg (by decide), hbehind]
    split <;> rfl
  have hquote : (atText depth done wrapped).stepQuote '"' = atValue depth done wrapped := by
    unfold Marking.stepQuote
    rw [hescaped, hthird]
    rfl
  show (atText depth done wrapped).stepPlain '"' next = _
  unfold Marking.stepPlain
  rw [hquote]
  rfl

/-- The backslashes in front of a place in a text do not go beyond the quote that it begins with. -/
theorem isOddRun_behind (p front : List Char) :
    isOddRun (p.reverse ++ '"' :: front) = endsInOddRun p := by
  induction p using List.reverseRecOn with
  | nil => rfl
  | append_singleton p c ih =>
      rw [List.reverse_append, List.reverse_singleton, endsInOddRun_concat, ← ih]
      by_cases hc : c = '\\'
      · subst hc
        exact isOddRun_backslash _
      · rw [beq_eq_false_iff_ne.mpr hc]
        exact isOddRun_of_ne hc _

/-- The pass follows a text to its end. -/
theorem scans_body {s p q : List Char} (h : body s = p ++ q) :
    Scans (atText depth (p.reverse ++ '"' :: done) wrapped) q
      (atText depth ((body s).reverse ++ '"' :: done) wrapped) := by
  induction q generalizing p with
  | nil =>
      rw [h, List.append_nil]
      exact Scans.nil _
  | cons c q ih =>
      have hstep : Scans (atText depth (p.reverse ++ '"' :: done) wrapped) [c]
          (atText depth (c :: (p.reverse ++ '"' :: done)) wrapped) := by
        by_cases hc : c = '"'
        · subst hc
          refine scans_escapedQuote ?_
          rw [List.append_assoc, List.cons_append, isOddRun_behind]
          exact endsInOddRun_before_quote h
        · refine scans_textChar hc ?_
          rintro rfl
          have hbreak : isPrintable '\n' = false := by decide
          exact notMem_body_of_not_isPrintable hbreak (by rw [h]; simp)
      have hrest := ih (p := p ++ [c]) (by rw [h]; simp)
      rw [List.reverse_append, List.reverse_singleton] at hrest
      exact hstep.append hrest

/-- No text ends in two quotes, and an empty one has only one in front of its end. -/
theorem take_two_behind (s : List Char) (front : List Char) :
    ((body s).reverse ++ '"' :: ' ' :: front).take 2 ≠ ['"', '"'] := by
  cases hlast : (body s).reverse with
  | nil => simp
  | cons c p =>
      have hbody : body s = p.reverse ++ [c] := by
        rw [← List.reverse_reverse (body s), hlast, List.reverse_cons]
      intro htake
      have hc : c = '"' := by
        simp only [List.cons_append, List.take_succ_cons, List.cons.injEq] at htake
        exact htake.1
      have hodd : endsInOddRun p.reverse = true := endsInOddRun_before_quote (q := []) (hc ▸ hbody)
      cases p with
      | nil => cases hodd
      | cons d p =>
          have hd : d = '"' := by
            simp only [List.cons_append, List.take_succ_cons, List.cons.injEq] at htake
            exact htake.2.1
          rw [List.reverse_cons, hd, endsInOddRun_concat] at hodd
          cases hodd

/-- **A text** behind a blank is passed as a whole. -/
theorem scans_quotedText (s : String) :
    Scans (atValue depth (' ' :: done) wrapped) (quotedText s)
      (atValue depth ((quotedText s).reverse ++ ' ' :: done) wrapped) := by
  have hclose : Scans (atText depth ((body s.toList).reverse ++ '"' :: ' ' :: done) wrapped) ['"']
      (atValue depth ('"' :: ((body s.toList).reverse ++ '"' :: ' ' :: done)) wrapped) := by
    refine scans_closeQuote ?_ ?_
    · rw [List.append_assoc, List.cons_append, isOddRun_behind]
      exact endsInOddRun_body _
    · rw [List.append_assoc]
      exact take_two_behind _ _
  have hend : (quotedText s).reverse ++ ' ' :: done
      = '"' :: ((body s.toList).reverse ++ '"' :: ' ' :: done) := by
    simp [quotedText]
  rw [hend]
  exact scans_openQuote.append ((scans_body (p := []) rfl).append hclose)

theorem scans_itemWords (ss : List String) :
    Scans (atValue depth done wrapped) (itemWords ss)
      (atValue depth ((itemWords ss).reverse ++ done) wrapped) := by
  induction ss generalizing done with
  | nil => exact Scans.nil _
  | cons s ss ih =>
      have hspace : Scans (atValue depth done wrapped) [' '] (atValue depth (' ' :: done) wrapped) :=
        scans_valueChar (by decide)
      have hcomma : Scans (atValue depth ((quotedText s).reverse ++ ' ' :: done) wrapped) [',']
          (atValue depth (',' :: ((quotedText s).reverse ++ ' ' :: done)) wrapped) :=
        scans_valueChar (by decide)
      have hitem : itemWords (s :: ss) = [' '] ++ (quotedText s ++ ([','] ++ itemWords ss)) := by
        simp [itemWords]
      have hend : (itemWords (s :: ss)).reverse ++ done
          = (itemWords ss).reverse ++ (',' :: ((quotedText s).reverse ++ ' ' :: done)) := by
        rw [hitem]
        simp
      rw [hend, hitem]
      exact hspace.append ((scans_quotedText s).append (hcomma.append ih))

/-- The value of a setting is passed, and all its brackets are closed. -/
theorem scans_written (setting : Setting) :
    Scans (atValue depth (' ' :: done) wrapped) setting.written
      (atValue depth (setting.written.reverse ++ ' ' :: done) wrapped) := by
  cases setting with
  | text s => exact scans_quotedText s
  | truth b =>
      intro rest
      cases b <;> rfl
  | texts ss =>
      have hclose : Scans (atValue (depth + 1) ((itemWords ss).reverse ++ '[' :: ' ' :: done) wrapped)
          [']'] (atValue (depth + 1 - 1) (']' :: ((itemWords ss).reverse ++ '[' :: ' ' :: done)) wrapped) :=
        scans_closeBracket
      have hend : (Setting.texts ss).written.reverse ++ ' ' :: done
          = ']' :: ((itemWords ss).reverse ++ '[' :: ' ' :: done) := by
        simp [Setting.written]
      rw [Int.add_sub_cancel] at hclose
      rw [hend]
      exact scans_openBracket.append ((scans_itemWords ss).append hclose)

theorem scans_line {e : String × Setting} (h : isBareKey e.1 = true) :
    Scans (atLine done wrapped) (lineWord e ++ ['\n'])
      (atLine ((lineWord e ++ ['\n']).reverse ++ done) wrapped) := by
  have hend : (lineWord e ++ ['\n']).reverse ++ done
      = '\n' :: (e.2.written.reverse ++ (' ' :: '=' :: ' ' :: (e.1.toList.reverse ++ done))) := by
    simp [lineWord]
  have hline : lineWord e ++ ['\n'] = e.1.toList ++ ([' ', '=', ' '] ++ (e.2.written ++ ['\n'])) := by
    simp [lineWord]
  rw [hend, hline]
  exact (scans_key h).append (scans_equals.append ((scans_written e.2).append scans_break))

theorem scans_tableText {t : PlainTable} (h : ∀ e ∈ t, isBareKey e.1 = true) :
    Scans (atLine done wrapped) (tableText t) (atLine ((tableText t).reverse ++ done) wrapped) := by
  induction t generalizing done with
  | nil => exact Scans.nil _
  | cons e t ih =>
      obtain ⟨he, ht⟩ := List.forall_mem_cons.mp h
      have htext : tableText (e :: t) = (lineWord e ++ ['\n']) ++ tableText t := by simp [tableText]
      rw [htext, List.reverse_append, List.append_assoc (tableText t).reverse]
      exact (scans_line he).append (ih ht)

end Passes

/-! ### The lines -/

theorem isPrintable_of_mem_quotedText {s : String} {c : Char} (h : c ∈ quotedText s) :
    isPrintable c = true := by
  have hquote : isPrintable '"' = true := by decide
  simp only [quotedText, List.mem_cons, List.mem_append, List.not_mem_nil, or_false] at h
  rcases h with rfl | h | rfl
  · exact hquote
  · exact isPrintable_of_mem_body h
  · exact hquote

/-- Everything in a line is shown as it is. -/
theorem isPrintable_of_mem_lineWord {e : String × Setting} (hkey : isBareKey e.1 = true) {c : Char}
    (h : c ∈ lineWord e) : isPrintable c = true := by
  obtain ⟨hspace, hequals, hcomma, hopen, hclose⟩ : isPrintable ' ' = true ∧ isPrintable '=' = true
      ∧ isPrintable ',' = true ∧ isPrintable '[' = true ∧ isPrintable ']' = true := by
    decide
  have hwritten : ∀ c ∈ e.2.written, isPrintable c = true := by
    intro c hc
    cases hsetting : e.2 with
    | text s =>
        rw [hsetting] at hc
        exact isPrintable_of_mem_quotedText hc
    | truth b =>
        rw [hsetting] at hc
        have hall : ∀ b, (Setting.truth b).written.all Char.isAlphanum = true := by decide
        exact isPrintable_of_isAlphanum (List.all_eq_true.mp (hall b) c hc)
    | texts ss =>
        rw [hsetting] at hc
        simp only [Setting.written, itemWords, List.mem_cons, List.mem_append, List.mem_flatMap,
          List.not_mem_nil, or_false] at hc
        rcases hc with rfl | ⟨s, -, rfl | hc | rfl⟩ | rfl
        · exact hopen
        · exact hspace
        · exact isPrintable_of_mem_quotedText hc
        · exact hcomma
        · exact hclose
  simp only [lineWord, List.mem_append, List.mem_cons] at h
  rcases h with h | rfl | rfl | rfl | h
  · exact (isBareChar_spec ((isBareKey_iff.mp hkey).2 c h)).2.1
  · exact hspace
  · exact hequals
  · exact hspace
  · exact hwritten c h

theorem notMem_lineWord {e : String × Setting} (hkey : isBareKey e.1 = true) {c : Char}
    (hc : isPrintable c = false) : c ∉ lineWord e := by
  intro hmem
  rw [isPrintable_of_mem_lineWord hkey hmem] at hc
  cases hc

theorem splitOn_tableText {t : PlainTable} (h : ∀ e ∈ t, isBareKey e.1 = true) :
    splitOn '\n' (tableText t) = t.map lineWord ++ [[]] := by
  induction t with
  | nil => rfl
  | cons e t ih =>
      obtain ⟨he, ht⟩ := List.forall_mem_cons.mp h
      have htext : tableText (e :: t) = lineWord e ++ '\n' :: tableText t := by simp [tableText]
      rw [htext, splitOn_append_cons (notMem_lineWord he (by decide)), ih ht]
      rfl

/-- **The lines** of plain settings are those that were written, and an empty one behind them. -/
theorem linesOf_tableText {t : PlainTable} (h : ∀ e ∈ t, isBareKey e.1 = true) :
    linesOf (tableText t) = .ok (t.map lineWord ++ [[]]) := by
  have hrun : Marking.run { wrapped := (tableText t).reverse } (tableText t)
      = .ok (atLine ((tableText t).reverse ++ []) (tableText t).reverse) := by
    have hscans : Scans (atLine [] (tableText t).reverse) (tableText t)
        (atLine ((tableText t).reverse ++ []) (tableText t).reverse) := scans_tableText h
    have hall := hscans []
    rw [List.append_nil] at hall
    exact hall
  unfold linesOf
  rw [hrun]
  show Except.ok (splitOn '\n' ((tableText t).reverse ++ []).reverse) = _
  rw [List.append_nil, List.reverse_reverse, splitOn_tableText h]

/-- The text of plain settings has no line breaks of another kind. -/
theorem return_notMem_tableText {t : PlainTable} (h : ∀ e ∈ t, isBareKey e.1 = true) :
    '\r' ∉ tableText t := by
  intro hmem
  obtain ⟨e, he, hc⟩ := List.mem_flatMap.mp hmem
  rcases List.mem_append.mp hc with hline | hbreak
  · exact notMem_lineWord (h e he) (by decide) hline
  · simp at hbreak

end ApiClientGen.Toml
