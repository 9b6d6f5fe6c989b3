/-
What can be written.

Only a text can stop the writer, and only one that begins with a character by its number: a text
that begins in any other way can be written, and so can values and tables of such texts.
-/
import ApiClientGen.Proofs.Document.Outcomes
import ApiClientGen.Proofs.Toml.WrittenLines

namespace ApiClientGen.Toml

open ApiClientGen.Document ApiClientGen.Text

/-! ### Texts -/

/-- Pieces of which the first one is not empty can be joined. -/
theorem joined?_isSome (c : Char) (first : List Char) (more : List (List Char)) :
    (joined? ((c :: first) :: more)).isSome = true := by
  cases more with
  | nil => rfl
  | cons next rest => simp [joined?]

/-- A text can be written if what is written does not begin with a backslash. -/
theorem text?_isSome {s : String} (h : (body s.toList).head? ≠ some '\\') :
    (text? s).isSome = true := by
  unfold text?
  rw [betweenDoubleQuotes_eq_body, Option.isSome_map]
  cases hbody : body s.toList with
  | nil => rfl
  | cons c rest =>
      have hc : c ≠ '\\' := by
        rintro rfl
        exact h (by rw [hbody]; rfl)
      obtain ⟨piece, more, -, hpieces⟩ := splitOnPair_cons (b := 'x') (s := rest) fun heq => hc heq.1
      rw [hpieces]
      exact joined?_isSome c piece more

/-- A text that begins with a character that is written as it is can be written. -/
theorem text?_isSome_of_head {c : Char} {rest : List Char} {s : String} (hs : s.toList = c :: rest)
    (hc : escaped '"' c = [c]) (hbackslash : c ≠ '\\') : (text? s).isSome = true := by
  have hbody : body (c :: rest) = escaped '"' c ++ body rest := rfl
  refine text?_isSome ?_
  rw [hs, hbody, hc]
  simpa using hbackslash

theorem writtenText_ok {s : String} (h : (text? s).isSome = true) :
    ∃ text, writtenText s = .ok text := by
  obtain ⟨text, htext⟩ := Option.isSome_iff_exists.mp h
  exact ⟨text, by rw [writtenText, htext]⟩

/-! ### Tables -/

theorem writtenItems_ok {vs : List Value} (h : ∀ v ∈ vs, ∃ word, writtenValue v = .ok word) :
    ∃ words, writtenItems vs = .ok words := by
  induction vs with
  | nil => exact ⟨[], rfl⟩
  | cons v vs ih =>
      obtain ⟨hv, hvs⟩ := List.forall_mem_cons.mp h
      obtain ⟨word, hword⟩ := hv
      obtain ⟨words, hwords⟩ := ih hvs
      rw [writtenItems, hword, hwords]
      exact ⟨_, rfl⟩

theorem writtenKey_of_isBareKey {key : String} (h : isBareKey key = true) :
    ∃ word, writtenKey key = .ok word := ⟨key, if_pos h⟩

/-- A field that is written on a line of its own. -/
structure IsLine (e : String × Value) : Prop where
  key : ∃ word, writtenKey e.1 = .ok word
  value : ∃ word, writtenValue e.2 = .ok word
  mapping : e.2.isMapping = false
  list : isTableList e.2 = false

/-- A field of a text. -/
theorem isLine_string {key s : String} (hkey : isBareKey key = true)
    (hs : (text? s).isSome = true) : IsLine (key, .string s) where
  key := writtenKey_of_isBareKey hkey
  value := writtenText_ok hs
  mapping := rfl
  list := rfl

/-- A field of a list of texts. -/
theorem isLine_strings {key : String} {ss : List String} (hkey : isBareKey key = true)
    (hss : ∀ s ∈ ss, (text? s).isSome = true) : IsLine (key, .list (ss.map .string)) where
  key := writtenKey_of_isBareKey hkey
  value := by
    have hitems : ∃ words, writtenItems (ss.map .string) = .ok words := writtenItems_ok fun v hv => by
      obtain ⟨s, hs, rfl⟩ := List.mem_map.mp hv
      exact writtenText_ok (hss s hs)
    obtain ⟨words, hwords⟩ := hitems
    rw [writtenValue, hwords]
    exact ⟨_, rfl⟩
  mapping := rfl
  list := isTableList_value (.texts ss)

/-- A table of lines has no tables inside of it. -/
theorem tableSection_ends {fields : Fields Value} (h : ∀ e ∈ fields, IsLine e) (levels : Nat)
    (outer : String) :
    Ends (fun s => s.2 = []) (fun _ => False) (tableSection (levels + 1) outer fields) := by
  refine Ends.bind (P := fun parts => ∀ p ∈ parts, p.tables = [])
    ((Ends.mapM fun e he => ?_).mono (fun _ h => h.2) fun _ => id)
    fun parts hparts => List.flatMap_eq_nil_iff.mpr hparts
  obtain ⟨key, hkey⟩ := (h e he).key
  obtain ⟨value, hvalue⟩ := (h e he).value
  rw [fieldParts_line hkey hvalue (h e he).mapping (h e he).list]
  rfl

/-- Tables of lines are written one after the other. -/
theorem writtenTables_ends {tables : List (String × Fields Value)}
    (h : ∀ t ∈ tables, ∀ e ∈ t.2, IsLine e) (levels : Nat) (done : String) :
    Ends (fun _ => True) (fun _ => False) (writtenTables (levels + 1) done tables) := by
  cases tables with
  | nil => trivial
  | cons t ts =>
      rw [writtenTables]
      · -- No table adds one inside of it, so that nothing is left for another level.
        refine Ends.bind (P := fun acc => acc.2 = [])
          (Ends.foldlM (fun acc table htable hacc => ?_) rfl) fun acc hacc => ?_
        · refine (tableSection_ends (h table htable) levels table.1).bind fun s hs => ?_
          show acc.2 ++ s.2.map _ = []
          rw [hacc, hs]
          rfl
        · obtain ⟨written, inside⟩ := acc
          obtain rfl := hacc
          cases levels <;> trivial
      · exact nofun

/-- **A table of tables of lines can be written.** -/
theorem write_ends {tables : List (String × Fields Value)}
    (h : ∀ t ∈ tables, (∃ word, writtenKey t.1 = .ok word) ∧ ∀ e ∈ t.2, IsLine e) :
    Ends (fun _ => True) (fun _ => False) (write (tables.map fun t => (t.1, .mapping t.2))) := by
  -- Nothing stands in the outer table but the others, and nothing inside of these.
  have htop : ∀ levels, Ends (fun s => ∀ t ∈ s.2, ∀ e ∈ t.2, IsLine e) (fun _ => False)
      (tableSection (levels + 1) "" (tables.map fun t => (t.1, .mapping t.2))) := by
    intro levels
    refine Ends.bind (P := fun parts => ∀ p ∈ parts, ∀ t ∈ p.tables, ∀ e ∈ t.2, IsLine e)
      ((Ends.mapM fun e he => ?_).mono (fun _ h => h.2) fun _ => id) fun parts hparts t ht => ?_
    · obtain ⟨t, ht, rfl⟩ := List.mem_map.mp he
      obtain ⟨⟨key, hkey⟩, hlines⟩ := h t ht
      unfold fieldParts
      dsimp only
      rw [hkey]
      exact List.forall_mem_singleton.mpr hlines
    · obtain ⟨p, hp, ht⟩ := List.mem_flatMap.mp ht
      exact hparts p hp t ht
  exact (htop _).bind fun s hs => writtenTables_ends hs _ _

end ApiClientGen.Toml
