/-
Saved settings loaded again.

Settings are saved as a table of plain settings: what is not set has no line, and comes back as
not set, because nothing is put in the place of a name, a description or a directory that is
missing.  So settings are the same after they were saved and loaded, if each text in them is one
that the format reads back, and these are not all texts.
-/
import ApiClientGen.Proofs.Document.Outcomes
import ApiClientGen.Proofs.Files.Trees
import ApiClientGen.Proofs.Toml.ReadBack
import ApiClientGen.Settings.Saved

namespace ApiClientGen.Settings

open ApiClientGen.Document ApiClientGen.Files ApiClientGen.Toml

namespace Saved

variable {s : Saved}

/-! ### Settings that are read back -/

/-- A value that is null or a text that is read back. -/
def IsReadableOption : Value → Prop
  | .null => True
  | .string text => Toml.IsReadable text.toList
  | _ => False

/-- Settings all of whose texts are read back. -/
structure IsReadable (s : Saved) : Prop where
  name : IsReadableOption s.name
  spec : IsReadableOption s.spec
  language : Toml.IsReadable s.language.toList
  outputDir : IsReadableOption s.outputDir
  derives : (Setting.texts s.derives).IsReadable
  flags : (Setting.texts s.flags).IsReadable

theorem IsReadableOption.cases {v : Value} (h : IsReadableOption v) :
    v = .null ∨ ∃ text, v = .string text ∧ Toml.IsReadable text.toList := by
  unfold IsReadableOption at h
  split at h
  · exact Or.inl rfl
  · exact Or.inr ⟨_, rfl, h⟩
  · cases h

/-- A line for a text; there is none for anything else. -/
def optionLine (key : String) : Value → PlainTable
  | .string text => [(key, .text text)]
  | _ => []

/-- The lines that settings are saved in. -/
def plainTable (s : Saved) : PlainTable :=
  [("language", .text s.language), ("derives", .texts s.derives), ("examples", .truth s.examples),
    ("flags", .texts s.flags)]
    ++ (optionLine "name" s.name ++ (optionLine "spec" s.spec ++ optionLine "output_dir" s.outputDir))

theorem table_eq_fields (h : s.IsReadable) : s.table = s.plainTable.fields := by
  have hoption : ∀ key v, IsReadableOption v →
      ([(key, v)].filter fun e => e.2 ≠ .null) = (optionLine key v).fields := by
    intro key v hv
    rcases hv.cases with rfl | ⟨text, rfl, -⟩
    · rfl
    · rfl
  have hset : ∀ (name spec outputDir : Value),
      ([("name", name), ("spec", spec), ("output_dir", outputDir)].filter fun e => e.2 ≠ .null)
        = ([("name", name)].filter fun e => e.2 ≠ .null)
          ++ (([("spec", spec)].filter fun e => e.2 ≠ .null)
            ++ ([("output_dir", outputDir)].filter fun e => e.2 ≠ .null)) := by
    intro name spec outputDir
    rw [← List.filter_append, ← List.filter_append]
    rfl
  unfold table
  dsimp only
  rw [hset, hoption _ _ h.name, hoption _ _ h.spec, hoption _ _ h.outputDir]
  simp [plainTable, PlainTable.fields, listOf, Setting.value]

/-- The keys that settings are saved under, those of values that may be missing last. -/
def settingKeys : List String :=
  ["language", "derives", "examples", "flags", "name", "spec", "output_dir"]

theorem keys_plainTable (s : Saved) : (s.plainTable.map Prod.fst).Sublist settingKeys := by
  have hoption : ∀ key v, ((optionLine key v).map Prod.fst).Sublist [key] := by
    intro key v
    unfold optionLine
    split
    · exact List.Sublist.refl _
    · exact List.nil_sublist _
  unfold plainTable
  rw [List.map_append, List.map_append, List.map_append]
  exact (List.Sublist.refl ["language", "derives", "examples", "flags"]).append
    ((hoption "name" s.name).append ((hoption "spec" s.spec).append (hoption "output_dir" s.outputDir)))

theorem isReadable_plainTable (h : s.IsReadable) : s.plainTable.IsReadable where
  nodup := (keys_plainTable s).nodup (by decide)
  bare := by
    have hall : ∀ key ∈ settingKeys, isBareKey key = true := by decide
    exact fun e he => hall e.1 ((keys_plainTable s).subset (List.mem_map_of_mem he))
  settings := by
    have hoption : ∀ key v, IsReadableOption v → ∀ e ∈ optionLine key v, e.2.IsReadable := by
      intro key v hv e he
      rcases hv.cases with rfl | ⟨text, rfl, htext⟩
      · cases he
      · rw [List.mem_singleton.mp he]
        exact htext
    intro e he
    simp only [plainTable, List.mem_append, List.mem_cons, List.not_mem_nil, or_false] at he
    rcases he with (rfl | rfl | rfl | rfl) | he | he | he
    · exact h.language
    · exact h.derives
    · exact trivial
    · exact h.flags
    · exact hoption _ _ h.name e he
    · exact hoption _ _ h.spec e he
    · exact hoption _ _ h.outputDir e he

theorem textsOf_listOf (texts : List String) : textsOf (listOf texts) = .ok texts := by
  have htexts : (texts.map Value.string).mapM (fun v => v.shown.mapError TableFault.text)
      = .ok (texts.map id) := mapM_map_pure fun _ _ => rfl
  rwa [List.map_id] at htexts

/-- The table of settings leads back to them. -/
theorem ofTable_table (h : s.IsReadable) : ofTable s.table = .ok s := by
  have hlists : ∀ key texts, Fields.get? s.table key = some (listOf texts) →
      textsAt s.table key = .ok texts := by
    intro key texts hget
    unfold textsAt
    rw [hget]
    exact textsOf_listOf texts
  have hset : Fields.get? s.table "language" = some (.string s.language)
      ∧ Fields.get? s.table "derives" = some (listOf s.derives)
      ∧ Fields.get? s.table "examples" = some (.bool s.examples)
      ∧ Fields.get? s.table "flags" = some (listOf s.flags) := ⟨rfl, rfl, rfl, rfl⟩
  have hoptions : (Fields.get? s.table "name").getD .null = s.name
      ∧ (Fields.get? s.table "spec").getD .null = s.spec
      ∧ (Fields.get? s.table "output_dir").getD .null = s.outputDir := by
    obtain ⟨name, spec, language, outputDir, derives, examples, flags⟩ := s
    rcases h.name.cases with rfl | ⟨_, rfl, -⟩ <;> rcases h.spec.cases with rfl | ⟨_, rfl, -⟩ <;>
      rcases h.outputDir.cases with rfl | ⟨_, rfl, -⟩ <;> exact ⟨rfl, rfl, rfl⟩
  obtain ⟨hlanguage, hderives, hexamples, hflags⟩ := hset
  obtain ⟨hname, hspec, houtputDir⟩ := hoptions
  have htext : textAt s.table "language" Language.python.name = .ok s.language := by
    unfold textAt
    rw [hlanguage]
    rfl
  unfold ofTable
  dsimp only
  rw [hname, hspec, houtputDir, hexamples, htext, hlists _ _ hderives, hlists _ _ hflags]
  rfl

theorem ofBytes_toUTF8 {path text : String} (h : s.IsReadable) (hread : Toml.read text = .ok s.table) :
    ofBytes path text.toUTF8 = .ok s := by
  have htext : String.fromUTF8? text.toUTF8 = some text := dif_pos text.isValidUTF8
  unfold ofBytes
  rw [htext]
  dsimp only
  rw [hread]
  dsimp only
  rw [ofTable_table h]
  rfl

/-! ### Saving and loading -/

section Runs

variable {σ : Type} {files : FileSystem (StateM σ)} {path text : String} {bytes : ByteArray} {w w' : σ}

theorem save_run (htext : Toml.write s.table = .ok text)
    (hwrite : (files.write path text).run w = (.ok (), w')) :
    (s.save files path).run.run w = (.ok text, w') := by
  unfold save
  rw [htext]
  exact EndsFrom.run_bind_ok (EndsFrom.run_lift hwrite)

theorem load_run (hpath : (chooseFile files path "").run w = (path, w))
    (hthere : (files.isThere path).run w = (true, w))
    (hread : (files.read path).run w = (.ok bytes, w)) (hbytes : ofBytes path bytes = .ok s) :
    (load files path "").run.run w = (.ok (some s), w) := by
  have hlift : (ExceptT.lift (chooseFile files path "") : ExceptT LoadFailure (StateM σ) String).run.run w
      = (.ok path, w) := EndsFrom.run_lift hpath
  have hask : (ExceptT.mk (pure (ofBytes path bytes)) : ExceptT LoadFailure (StateM σ) Saved).run.run w
      = (.ok s, w) := by
    rw [hbytes]
    rfl
  unfold load
  rw [EndsFrom.run_bind_ok hlift, EndsFrom.run_bind_ok (EndsFrom.run_lift hthere)]
  simp only [Bool.not_true, Bool.false_eq_true, if_false]
  rw [EndsFrom.run_bind_ok (EndsFrom.run_lift hread)]
  dsimp only
  rw [EndsFrom.run_bind_ok hask]
  rfl

end Runs

/-- **Settings are the same** after they were saved to a file and loaded from it. -/
theorem load_save (h : s.IsReadable) {t : Tree} {here place : Place} {path : String}
    (hlocate : t.locate here path = .ok place) (hplace : t.get? place ≠ some .directory) :
    ∃ text t', (s.save (Tree.fileSystem here) path).run.run t = (.ok text, t')
      ∧ (load (Tree.fileSystem here) path "").run.run t' = (.ok (some s), t') := by
  obtain ⟨text, hwrite, hread⟩ := read_write (isReadable_plainTable h)
  rw [← table_eq_fields h] at hwrite hread
  obtain ⟨t', hwritten, hthere, hcontent⟩ := Tree.fileSystem_write hlocate hplace text
  have hpath : (chooseFile (Tree.fileSystem here) path "").run t' = (path, t') := by
    unfold chooseFile
    simp only [ne_eq, not_true_eq_false, false_and, if_false]
    rfl
  refine ⟨text, t', save_run hwrite hwritten, ?_⟩
  exact load_run hpath hthere hcontent (ofBytes_toUTF8 h hread)

/-- Settings whose texts need most of what can be escaped. -/
def quotedSettings : Saved where
  name := .string "It's \"doors\"\n"
  spec := .string "C:\\doors\\api.json"
  derives := ["a, \"b\"", " [c=#d]\u200b"]
  examples := false
  flags := ["\\\\"]

theorem load_save_quotedSettings :
    quotedSettings.IsReadable
      ∧ Tree.locate [] {} settingsFileName = .ok [settingsFileName]
      ∧ Tree.get? {} [settingsFileName] ≠ some .directory
      ∧ ∃ text t', (quotedSettings.save (Tree.fileSystem []) settingsFileName).run.run {} = (.ok text, t')
        ∧ (load (Tree.fileSystem []) settingsFileName "").run.run t' = (.ok (some quotedSettings), t') := by
  have hreadable : quotedSettings.IsReadable := by
    refine ⟨?_, ?_, ?_, trivial, ?_, ?_⟩
    · show Toml.IsReadable "It's \"doors\"\n".toList
      decide +kernel
    · show Toml.IsReadable "C:\\doors\\api.json".toList
      decide +kernel
    · decide +kernel
    · decide +kernel
    · decide +kernel
  have hlocate : Tree.locate [] {} settingsFileName = .ok [settingsFileName] := by decide +kernel
  have hplace : Tree.get? {} [settingsFileName] ≠ some .directory := nofun
  exact ⟨hreadable, hlocate, hplace, load_save hreadable hlocate hplace⟩

/-- Settings loaded again after they were saved where nothing was before. -/
def reloaded (s : Saved) : Option Saved :=
  let saved := (s.save (Tree.fileSystem []) settingsFileName).run.run {}
  ((load (Tree.fileSystem []) settingsFileName "").run.run saved.2).1.toOption.join

/-- A value that is null or a text. -/
def IsOption (v : Value) : Prop := v = .null ∨ ∃ text, v = .string text

/-- **A name that is a quote is lost**: it comes back as the empty text. -/
theorem not_load_save_quote :
    (reloaded { name := .string "\"" }).map (·.name) = some (.string "")
      ∧ ¬ ∀ s : Saved, IsOption s.name → IsOption s.spec → IsOption s.outputDir →
        ∀ (t : Tree) (here place : Place) (path : String), t.locate here path = .ok place →
          t.get? place ≠ some .directory →
            ∃ text t', (s.save (Tree.fileSystem here) path).run.run t = (.ok text, t')
              ∧ (load (Tree.fileSystem here) path "").run.run t' = (.ok (some s), t') := by
  have hlost : (reloaded { name := .string "\"" }).map (·.name) = some (.string "") := by
    decide +kernel
  refine ⟨hlost, fun hall => ?_⟩
  have hlocate : Tree.locate [] {} settingsFileName = .ok [settingsFileName] := by decide +kernel
  obtain ⟨text, t', hsave, hload⟩ := hall { name := .string "\"" } (Or.inr ⟨_, rfl⟩) (Or.inl rfl)
    (Or.inl rfl) {} [] _ settingsFileName hlocate nofun
  unfold reloaded at hlost
  dsimp only at hlost
  rw [hsave, hload] at hlost
  have hname : some (Value.string "\"") = some (.string "") := hlost
  exact absurd hname (by decide)

end Saved

end ApiClientGen.Settings
