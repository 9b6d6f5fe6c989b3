/-
Pointers and the names in them.

A pointer is read in three steps: codes behind percent signs, cutting at slashes, and marks
behind tildes.  The first step does nothing where there is no percent sign, and the last one
where there is no tilde; so names that have none of these characters stand for themselves, and
a pointer that joins them with slashes leads through them.  Reading marks never takes the marks
away without a trace: a part that is read as a plain name is that name.
-/
import ApiClientGen.Reference.Pointer

namespace ApiClientGen.Text

/-! ### Cutting at a separator -/

theorem splitOn_of_notMem {separator : Char} {s : List Char} (h : separator ∉ s) :
    splitOn separator s = [s] := by
  induction s with
  | nil => rfl
  | cons c rest ih =>
      simp only [List.mem_cons, not_or] at h
      rw [splitOn, if_neg (fun hc => h.1 hc.symm), ih h.2]

theorem splitOn_append_cons {separator : Char} {s : List Char} (h : separator ∉ s)
    (rest : List Char) : splitOn separator (s ++ separator :: rest) = s :: splitOn separator rest := by
  induction s with
  | nil => simp [splitOn]
  | cons c s ih =>
      simp only [List.mem_cons, not_or] at h
      rw [List.cons_append, splitOn, if_neg (fun hc => h.1 hc.symm), ih h.2]

/-- The first piece stands in front of the separator, if there are others. -/
theorem eq_append_of_splitOn {separator : Char} {s first : List Char} {more : List (List Char)}
    (h : splitOn separator s = first :: more) (hmore : more ≠ []) :
    ∃ rest, s = first ++ separator :: rest ∧ splitOn separator rest = more := by
  induction s generalizing first with
  | nil =>
      simp only [splitOn, List.cons.injEq] at h
      exact absurd h.2.symm hmore
  | cons c s ih =>
      rw [splitOn] at h
      split at h
      · rename_i hc
        simp only [List.cons.injEq] at h
        exact ⟨s, by rw [← h.1, hc]; rfl, h.2⟩
      · split at h
        · rename_i hnil
          exact absurd hnil (splitOn_ne_nil separator s)
        · rename_i piece pieces hpieces
          simp only [List.cons.injEq] at h
          obtain ⟨hfirst, hrest⟩ := h
          obtain ⟨rest, hs, hmore⟩ := ih (hrest ▸ hpieces)
          exact ⟨rest, by rw [← hfirst, hs]; rfl, hmore⟩

/-- A text in one piece has no separator. -/
theorem notMem_of_splitOn {separator : Char} {s piece : List Char}
    (h : splitOn separator s = [piece]) : s = piece ∧ separator ∉ s := by
  induction s generalizing piece with
  | nil =>
      simp only [splitOn, List.cons.injEq, and_true] at h
      exact ⟨h, by simp⟩
  | cons c s ih =>
      rw [splitOn] at h
      split at h
      · simp only [List.cons.injEq] at h
        exact absurd h.2 (splitOn_ne_nil separator s)
      · rename_i hc
        split at h
        · rename_i hnil
          exact absurd hnil (splitOn_ne_nil separator s)
        · rename_i first more hpieces
          simp only [List.cons.injEq] at h
          obtain ⟨hfirst, hmore⟩ := h
          obtain ⟨hs, hnot⟩ := ih (hmore ▸ hpieces)
          refine ⟨by rw [← hfirst, hs], ?_⟩
          simp only [List.mem_cons, not_or]
          exact ⟨fun h => hc h.symm, hnot⟩

/-! ### Texts in front of other texts -/

theorem textAfter?_eq_some {start s rest : String} :
    textAfter? start s = some rest ↔ s = start ++ rest := by
  have hdrop : ∀ {a b : List Char}, a.isPrefixOf b = true ↔ b = a ++ b.drop a.length := by
    intro a b
    rw [List.isPrefixOf_iff_prefix]
    constructor
    · rintro ⟨c, rfl⟩
      simp
    · intro h
      exact ⟨_, h.symm⟩
  unfold textAfter? after?
  split
  · rename_i h
    have hs := hdrop.mp h
    simp only [Option.map_some, Option.some.injEq]
    constructor
    · rintro rfl
      apply String.toList_injective
      simpa using hs
    · rintro rfl
      simp
  · rename_i h
    simp only [Option.map_none, reduceCtorEq, false_iff]
    rintro rfl
    exact h (hdrop.mpr (by simp))

theorem beginsWith_iff {s start : String} : beginsWith s start = true ↔ ∃ rest, s = start ++ rest := by
  constructor
  · intro h
    obtain ⟨rest, hrest⟩ := List.isPrefixOf_iff_prefix.mp h
    refine ⟨String.ofList rest, String.toList_injective ?_⟩
    simpa using hrest.symm
  · rintro ⟨rest, rfl⟩
    exact List.isPrefixOf_iff_prefix.mpr ⟨rest.toList, by simp⟩

/-! ### Bytes of ASCII characters -/

/-- ASCII characters in front of other bytes are read as they are. -/
theorem decodeUtf8_ascii_append {s : List Char} (h : ∀ c ∈ s, c.toNat < 128) (bytes : List UInt8) :
    decodeUtf8 ((s.map fun c => UInt8.ofNat c.toNat) ++ bytes) = s ++ decodeUtf8 bytes := by
  induction s with
  | nil => rfl
  | cons c s ih =>
      have hc : c.toNat < 128 := h c (by simp)
      have hbyte : (UInt8.ofNat c.toNat).toNat = c.toNat := by
        simp [Nat.mod_eq_of_lt (show c.toNat < 256 by omega)]
      have hrest : decodeFrom none ((s.map fun c => UInt8.ofNat c.toNat) ++ bytes)
          = s ++ decodeFrom none bytes :=
        ih fun d hd => h d (List.mem_cons_of_mem _ hd)
      show decodeFrom none (UInt8.ofNat c.toNat :: ((s.map fun c => UInt8.ofNat c.toNat) ++ bytes))
        = c :: (s ++ decodeFrom none bytes)
      rw [decodeFrom]
      simp only [hbyte, hc, if_true, Char.ofNat_toNat]
      rw [hrest]

theorem decodeUtf8_ascii {s : List Char} (h : ∀ c ∈ s, c.toNat < 128) :
    decodeUtf8 (s.map fun c => UInt8.ofNat c.toNat) = s := by
  have happend := decodeUtf8_ascii_append h []
  rwa [List.append_nil, show decodeUtf8 [] = [] from rfl, List.append_nil] at happend

end ApiClientGen.Text

namespace ApiClientGen.Reference

open ApiClientGen.Text

/-! ### Codes behind percent signs -/

/-- A code can only begin with a percent sign. -/
theorem percentBytes_append {s : List Char} (h : '%' ∉ s) (t : List Char) :
    percentBytes (s ++ t) = (s.map fun c => UInt8.ofNat c.toNat) ++ percentBytes t := by
  induction s with
  | nil => rfl
  | cons c s ih =>
      simp only [List.mem_cons, not_or] at h
      rw [List.cons_append, percentBytes, ih h.2]
      · rfl
      · intro a b rest hc _
        exact h.1 hc.symm

theorem percentBytes_eq_map {s : List Char} (h : '%' ∉ s) :
    percentBytes s = s.map fun c => UInt8.ofNat c.toNat := by
  have happend := percentBytes_append h []
  have hnil : percentBytes [] = [] := by rw [percentBytes]
  rwa [List.append_nil, hnil, List.append_nil] at happend

/-- The runs of a text joined are the text. -/
theorem flatten_asciiRuns (run s : List Char) : (asciiRuns run s).flatten = run.reverse ++ s := by
  induction s generalizing run with
  | nil => simp [asciiRuns]
  | cons c s ih =>
      rw [asciiRuns]
      split
      · rw [ih]
        simp
      · simp [ih]

theorem percentDecoded_eq_self {s : List Char} (h : '%' ∉ s) : percentDecoded s = s := by
  have hrun : ∀ run ∈ asciiRuns [] s,
      (if run.all fun c => c.toNat < 128 then decodeUtf8 (percentBytes run) else run) = run := by
    intro run hmem
    have hpercent : '%' ∉ run := by
      intro hp
      have hs : '%' ∈ (asciiRuns [] s).flatten := List.mem_flatten.mpr ⟨run, hmem, hp⟩
      rw [flatten_asciiRuns] at hs
      exact h (by simpa using hs)
    split
    · rename_i hall
      rw [percentBytes_eq_map hpercent]
      exact decodeUtf8_ascii fun c hc => by simpa using List.all_eq_true.mp hall c hc
    · rfl
  calc percentDecoded s
      = ((asciiRuns [] s).map fun run => run).flatten := by
        rw [percentDecoded, List.flatMap_def, List.map_congr_left hrun]
    _ = s := by simp [flatten_asciiRuns]

/-! ### Marks behind tildes -/

theorem replaceMark_eq_self {digit by_ : Char} {s : List Char} (h : '~' ∉ s) :
    replaceMark digit by_ s = s := by
  induction s with
  | nil => rw [replaceMark]
  | cons c s ih =>
      simp only [List.mem_cons, not_or] at h
      rw [replaceMark, ih h.2]
      intro d rest hc _
      exact h.1 hc.symm

/-- Where a tilde stood there is a tilde still, or what took the place of a mark. -/
theorem mem_replaceMark_of_tilde (digit by_ : Char) {s : List Char} (h : '~' ∈ s) :
    '~' ∈ replaceMark digit by_ s ∨ by_ ∈ replaceMark digit by_ s := by
  fun_induction replaceMark digit by_ s with
  | case1 rest ih => exact Or.inr (by simp)
  | case2 c rest hne ih => exact Or.inl (by simp)
  | case3 c rest hno ih =>
      rcases List.mem_cons.mp h with hc | hrest
      · exact Or.inl (List.mem_cons.mpr (Or.inl hc))
      · rcases ih hrest with htilde | hby
        · exact Or.inl (List.mem_cons_of_mem _ htilde)
        · exact Or.inr (List.mem_cons_of_mem _ hby)
  | case4 => cases h

/-- What is neither a tilde nor the digit of a mark stays. -/
theorem mem_replaceMark_of_mem {digit by_ c : Char} {s : List Char} (h : c ∈ s) (htilde : c ≠ '~')
    (hdigit : c ≠ digit) : c ∈ replaceMark digit by_ s := by
  fun_induction replaceMark digit by_ s with
  | case1 rest ih =>
      simp only [List.mem_cons, htilde, hdigit, false_or] at h
      exact List.mem_cons_of_mem _ (ih h)
  | case2 d rest hne ih =>
      simp only [List.mem_cons, htilde, false_or] at h
      exact List.mem_cons_of_mem _ (ih (List.mem_cons.mpr h))
  | case3 d rest hno ih =>
      rcases List.mem_cons.mp h with rfl | hrest
      · simp
      · exact List.mem_cons_of_mem _ (ih hrest)
  | case4 => cases h

theorem unescaped_eq_self {s : List Char} (h : '~' ∉ s) : unescaped s = s := by
  rw [unescaped, replaceMark_eq_self h, replaceMark_eq_self h]

/-- A part that is read as a name without slashes and tildes is that name. -/
theorem eq_of_unescaped {part name : List Char} (h : unescaped part = name) (hslash : '/' ∉ name)
    (htilde : '~' ∉ name) : part = name := by
  have hpart : '~' ∉ part := by
    intro hmem
    rw [unescaped] at h
    rcases mem_replaceMark_of_tilde '1' '/' hmem with hfirst | hfirst
    · rcases mem_replaceMark_of_tilde '0' '~' hfirst with hlast | hlast <;>
        exact htilde (h ▸ hlast)
    · exact hslash (h ▸ mem_replaceMark_of_mem hfirst (by decide) (by decide))
  rw [← h, unescaped_eq_self hpart]

/-! ### Pointers through plain names -/

/-- None of some characters stands in a text. -/
def IsWithout (marks : List Char) (s : String) : Prop := ∀ c ∈ s.toList, c ∉ marks

instance (marks : List Char) (s : String) : Decidable (IsWithout marks s) :=
  List.decidableBAll (fun c => c ∉ marks) s.toList

theorem IsWithout.notMem {marks : List Char} {s : String} (h : IsWithout marks s) {c : Char}
    (hc : c ∈ marks) : c ∉ s.toList :=
  fun hmem => h c hmem hc

theorem IsWithout.mono {marks fewer : List Char} {s : String} (h : IsWithout marks s)
    (hfewer : fewer ⊆ marks) : IsWithout fewer s :=
  fun c hc hmem => h c hc (hfewer hmem)

theorem isWithout_append {marks : List Char} {s t : String} :
    IsWithout marks (s ++ t) ↔ IsWithout marks s ∧ IsWithout marks t := by
  simp only [IsWithout, String.toList_append, List.forall_mem_append]

/-- A name without the characters that pointers read as something else. -/
def IsPlainName (name : String) : Prop := IsWithout ['/', '~', '%'] name

instance (name : String) : Decidable (IsPlainName name) :=
  inferInstanceAs (Decidable (IsWithout ['/', '~', '%'] name))

section

variable {name : String}

theorem IsPlainName.slash (h : IsPlainName name) : '/' ∉ name.toList := h.notMem (by simp)

theorem IsPlainName.tilde (h : IsPlainName name) : '~' ∉ name.toList := h.notMem (by simp)

theorem IsPlainName.percent (h : IsPlainName name) : '%' ∉ name.toList := h.notMem (by simp)

end

/-- A pointer without percent signs is cut into parts, and the marks in each part are read. -/
theorem pointerParts_of_no_percent {pointer : String} (hne : pointer ≠ "")
    (h : '%' ∉ pointer.toList) :
    pointerParts pointer
      = (splitOn '/' (pointer.toList.dropWhile (· == '/'))).map fun part =>
        String.ofList (unescaped part) := by
  have hdrop : '%' ∉ pointer.toList.dropWhile (· == '/') :=
    fun hmem => h ((List.dropWhile_sublist _).subset hmem)
  rw [pointerParts, if_neg hne, percentDecoded_eq_self hdrop]

/--
A pointer that is written plainly: one slash first, no percent signs, and none of the characters
that addresses are read without.
-/
structure IsPlainPointer (pointer : String) : Prop where
  slash : ∃ first rest, pointer.toList = '/' :: first :: rest ∧ first ≠ '/'
  without : IsWithout ['%', '\t', '\r', '\n'] pointer

/-- The parts of a plain pointer stand between its slashes. -/
theorem IsPlainPointer.parts {pointer : String} (h : IsPlainPointer pointer) :
    pointerParts pointer
      = (splitOn '/' pointer.toList.tail).map fun part => String.ofList (unescaped part) := by
  obtain ⟨first, rest, hlist, hfirst⟩ := h.slash
  have hne : pointer ≠ "" := by
    rintro rfl
    exact nomatch hlist
  rw [pointerParts_of_no_percent hne (h.without.notMem (by simp)), hlist, List.dropWhile_cons_of_pos (by rfl),
    List.dropWhile_cons_of_neg (by simpa using hfirst), List.tail_cons]

/-- A pointer that begins with two plain names leads through them, and on through what follows. -/
theorem pointerParts_two {first second rest : String} (hfirst : IsPlainName first)
    (hne : first ≠ "") (hsecond : IsPlainName second) (hrest : '%' ∉ rest.toList) :
    pointerParts ("/" ++ first ++ "/" ++ second ++ "/" ++ rest)
      = first :: second :: (splitOn '/' rest.toList).map fun part =>
        String.ofList (unescaped part) := by
  have htext : ("/" ++ first ++ "/" ++ second ++ "/" ++ rest).toList
      = '/' :: (first.toList ++ '/' :: (second.toList ++ '/' :: rest.toList)) := by simp
  have hdrop : (first.toList ++ '/' :: (second.toList ++ '/' :: rest.toList)).dropWhile (· == '/')
      = first.toList ++ '/' :: (second.toList ++ '/' :: rest.toList) := by
    cases hlist : first.toList with
    | nil => exact absurd (String.toList_eq_nil_iff.mp hlist) hne
    | cons c rest =>
        have hc : c ≠ '/' := fun hc => hfirst.slash (by simp [hlist, hc])
        simp [hc]
  rw [pointerParts_of_no_percent]
  · rw [htext, List.dropWhile_cons_of_pos (by rfl), hdrop, splitOn_append_cons hfirst.slash,
      splitOn_append_cons hsecond.slash]
    simp [unescaped_eq_self hfirst.tilde, unescaped_eq_self hsecond.tilde]
  · intro h
    have := congrArg String.toList h
    rw [htext] at this
    exact nomatch this
  · rw [htext]
    simp [hfirst.percent, hsecond.percent, hrest]

/-- **A pointer through three plain names leads through these names.** -/
theorem pointerParts_three {first second third : String} (hfirst : IsPlainName first)
    (hne : first ≠ "") (hsecond : IsPlainName second) (hthird : IsPlainName third) :
    pointerParts ("/" ++ first ++ "/" ++ second ++ "/" ++ third) = [first, second, third] := by
  rw [pointerParts_two hfirst hne hsecond hthird.percent, splitOn_of_notMem hthird.slash]
  simp [unescaped_eq_self hthird.tilde]

end ApiClientGen.Reference
