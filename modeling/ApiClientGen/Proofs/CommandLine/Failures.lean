/-
Failures that are not reported.

A run of the program that fails says why, with a few exceptions.  They are traced to what they
come from: settings that the reader of their format gives up on, that hold something else than a
text where a text belongs, or that cannot be written; a description that its reader gives up on;
an interface with a version that cannot be written, or with a field that may be left out and whose
default holds a reference that leads nowhere.
-/
import ApiClientGen.CommandLine.Run
import ApiClientGen.Proofs.Client.BuildFailures
import ApiClientGen.Proofs.Document.Outcomes
import ApiClientGen.Proofs.Settings.SavedReadBack
import ApiClientGen.Proofs.Source.ReadingFaults

namespace ApiClientGen.CommandLine

open ApiClientGen.Backend ApiClientGen.Client ApiClientGen.Document ApiClientGen.Files
open ApiClientGen.Settings ApiClientGen.Source ApiClientGen.Spec

variable {σ : Type} {files : FileSystem (StateM σ)} {print : String → StateM σ Unit}
  {directory path : Path} {inputs : Inputs} {a : Arguments} {w : σ}

/-! ### What gets out of a generation -/

/-- A file is read as these bytes, in some state of the files. -/
def HasRead (files : FileSystem (StateM σ)) (path : String) (bytes : ByteArray) : Prop :=
  ∃ w w', (files.read path).run w = (.ok bytes, w')

/-- A value that is set, but to something else than a text. -/
def IsMistaken (v : Value) : Prop := v.isSomething = true ∧ ∀ text, v ≠ .string text

/-- An interface is taken from the description in a file. -/
def IsTakenFrom (files : FileSystem (StateM σ)) (path : Path) (spec : ApiSpec) : Prop :=
  ∃ bytes description document, HasRead files path.text bytes ∧ Source.read path bytes = .ok description
    ∧ Canonical.canonicalize description = .ok document ∧ Extraction.extract document = .ok spec

/-- What a generation gives up on without a word. -/
inductive GivesUp (files : FileSystem (StateM σ)) (path : Path) (inputs : Inputs) : RunFailure → Prop where
  /-- The description is YAML with something in it that its reader gives up on. -/
  | description {bytes : ByteArray} {text : String} {fault : Yaml.Fault} (hread : HasRead files path.text bytes)
      (hformat : Format.ofPath path = .yaml) (htext : String.fromUTF8? bytes = some text)
      (hgiven : GivenUpFor text fault) :
      GivesUp files path inputs (.source (.unreadable path .yaml (.yaml fault)))
  /-- The name is no text, or the directory to write to is set to something else. -/
  | inputs (h : (∀ text, inputs.name ≠ .string text) ∨ IsMistaken inputs.outputDir) :
      GivesUp files path inputs (.inputs .notText)
  /-- The version of the interface cannot be written. -/
  | version {spec : ApiSpec} (hspec : IsTakenFrom files path spec) (hversion : Toml.text? spec.version = none) :
      GivesUp files path inputs (.backend ⟨.python, .client .unwritable⟩)
  /-- A default is looked at, and a reference in it leads nowhere, but not because of its address. -/
  | default {spec : ApiSpec} {fault : Reference.Fault} (hspec : IsTakenFrom files path spec)
      (hdefault : HasBrokenDefault spec fault) (haddress : fault.isAddress = false) :
      GivesUp files path inputs (.backend ⟨.python, .client (.literal (.reference fault))⟩)

/-- A failure of a generation is reported, or the generation gives up. -/
def IsExplained (files : FileSystem (StateM σ)) (path : Path) (inputs : Inputs) (failure : RunFailure) :
    Prop :=
  (Failure.generation failure).report?.isSome = true ∨ GivesUp files path inputs failure

/-- A description is read from the bytes of its file. -/
theorem readDescription_ends :
    EndsFrom w (readDescription files path)
      (fun description _ => ∃ bytes, HasRead files path.text bytes ∧ Source.read path bytes = .ok description)
      (fun failure => IsExplained files path inputs (.source failure)) := by
  unfold readDescription
  refine EndsFrom.after fun r w' hfile => ?_
  cases r with
  | error _ => exact Or.inl rfl
  | ok bytes =>
      have hread : HasRead files path.text bytes := ⟨w, w', hfile⟩
      refine EndsFrom.ask (Ends.intro (fun description hdescription => ⟨bytes, hread, hdescription⟩)
        fun failure hfailure => ?_)
      have hends := (describe_ends (Format.ofPath path) bytes).mapError
        (f := Source.Failure.unreadable path (Format.ofPath path))
        (Q := fun failure => IsExplained files path inputs (.source failure)) fun cause hcause => ?_
      · exact hends.of_error hfailure
      rcases hcause with hexpected | ⟨hformat, text, fault, htext, rfl, hgiven⟩
      · refine Or.inl ?_
        show (if cause.isExpected then some _ else none : Option String).isSome = true
        rw [if_pos hexpected]
        rfl
      · rw [hformat]
        exact Or.inr (.description hread hformat htext hgiven)

theorem destinationOf_ends {outputDir : Value} :
    Ends (fun _ => True) (fun fault => fault = .notText ∧ IsMistaken outputDir)
      (destinationOf directory outputDir) := by
  unfold destinationOf
  split
  · rename_i hset
    split
    · trivial
    · rename_i hother
      exact ⟨rfl, hset, fun text heq => hother text heq⟩
  · trivial

/-- Settings are made from inputs, or an option is not known, or a text is missing. -/
theorem generation_ends :
    Ends (fun _ => True) (fun fault => IsExplained files path inputs (.inputs fault))
      (inputs.generation directory) := by
  unfold Inputs.generation
  refine Ends.bind (P := fun _ => True) ?_ fun destination _ => ?_
  · refine destinationOf_ends.mono (fun _ h => h) fun fault hfault => ?_
    obtain ⟨rfl, hmistaken⟩ := hfault
    exact Or.inr (.inputs (Or.inr hmistaken))
  split
  · refine Ends.bind (Ends.of_mapError fun _ => Or.inl rfl) fun flags _ => ?_
    exact Ends.bind (Ends.of_mapError fun _ => Or.inl rfl) fun language _ => trivial
  · rename_i hother
    exact Or.inr (.inputs (Or.inl fun text heq => hother text heq))

/-- The failure of a literal is reported if it is the address of a reference that is at fault. -/
theorem isExplained_literal {spec : ApiSpec} (hspec : IsTakenFrom files path spec) {fault : LiteralFault}
    (hfault : EndsFor (HasBrokenDefault spec) fault) :
    IsExplained files path inputs (.backend ⟨.python, .client (.literal fault)⟩) := by
  obtain rfl | ⟨reference, rfl, hdefault⟩ := hfault
  · exact Or.inl rfl
  · cases haddress : reference.isAddress with
    | false => exact Or.inr (.default hspec hdefault haddress)
    | true =>
        refine Or.inl ?_
        show (if reference.isAddress then some _ else none : Option String).isSome = true
        rw [haddress]
        rfl

/-- The backend writes a client, or it is explained why not. -/
theorem dispatch_ends {spec : ApiSpec} {g : Generation} (hspec : IsTakenFrom files path spec) :
    EndsFrom w (dispatch (Steps.builtIn files).registry g.language spec g) (fun _ _ => True)
      (IsExplained files path inputs) := by
  have hlanguage : g.language = .python := by
    cases g.language
    rfl
  have hfind : (Steps.builtIn files).registry.find .python = .ok (clientGenerator files) := rfl
  unfold dispatch
  rw [hlanguage, hfind]
  refine EndsFrom.adapt (F := fun failure => IsExplained files path inputs (.backend failure)) ?_
    fun _ h => h
  unfold clientGenerator
  obtain ⟨_, _, document, -, -, -, hextract⟩ := id hspec
  have hlibrary := library_ends (g := g) hextract
  cases hproject : library spec g with
  | error failure =>
      rcases hlibrary.of_error hproject with ⟨dotted, rfl⟩ | ⟨fault, rfl, hfault⟩ | ⟨rfl, hversion⟩
      · exact EndsFrom.throw (Or.inl rfl)
      · exact EndsFrom.throw (isExplained_literal hspec hfault)
      · exact EndsFrom.throw (Or.inr (.version hspec hversion))
  | ok project =>
      refine EndsFrom.afterLift fun r w' _ => ?_
      cases r with
      | ok _ => exact EndsFrom.pure trivial
      | error _ => exact EndsFrom.throw (Or.inl rfl)

/-- A generation gives a client, or it says why not, or it gives up. -/
theorem generate_ends :
    EndsFrom w (generate files (.builtIn files) directory path inputs) (fun _ _ => True)
      (IsExplained files path inputs) := by
  unfold generate
  refine (readDescription_ends.adapt fun _ h => h).bind fun description w' _ hdescription => ?_
  obtain ⟨bytes, hread, hdescription⟩ := hdescription
  refine EndsFrom.bind (P := fun document _ => Canonical.canonicalize description = .ok document)
    (EndsFrom.ask (Ends.of_mapError fun _ => Or.inl rfl)) fun document w' _ hdocument => ?_
  refine EndsFrom.bind (P := fun spec _ => IsTakenFrom files path spec) ?_ fun spec w' _ hspec => ?_
  · refine EndsFrom.adapt (F := fun failure => IsExplained files path inputs (.extraction failure))
      (EndsFrom.ask (Ends.intro (fun spec hspec => ?_) fun _ _ => Or.inl rfl)) fun _ h => h
    exact ⟨bytes, description, document, hread, hdescription, hdocument, hspec⟩
  refine EndsFrom.bind (P := fun _ _ => True) (EndsFrom.ask (generation_ends.mapError fun _ h => h))
    fun g w' _ _ => ?_
  exact (dispatch_ends hspec).bind fun _ _ _ _ => EndsFrom.pure trivial

/-! ### What gets out of a run -/

/-- The settings that a run goes by: those that are saved, with its arguments put in their places. -/
def InForce (files : FileSystem (StateM σ)) (directory : Path) (a : Arguments) (w : σ)
    (settings : Saved) : Prop :=
  ∃ saved w', (Saved.load files settingsFileName directory.text).run.run w = (.ok saved, w')
    ∧ settings = (saved.getD {}).merge a.overrides

/-- A text that the reader of settings gives up on, without saying that it is malformed. -/
def GivenUp (bytes : ByteArray) (fault : Toml.Fault) : Prop :=
  fault ≠ .malformed ∧ ∃ text, String.fromUTF8? bytes = some text ∧ Toml.read text = .error fault

/-- The failures of a run that get out of it. -/
inductive GetsOut (files : FileSystem (StateM σ)) (directory : Path) (a : Arguments) (w : σ) :
    Failure → Prop where
  /-- The reader of the settings gives up on them. -/
  | load {place : String} {bytes : ByteArray} {fault : Toml.Fault} (hread : HasRead files place bytes)
      (hgiven : GivenUp bytes fault) : GetsOut files directory a w (.load (.reader fault))
  /-- The settings are to be saved, but no file is written. -/
  | access {fault : AccessFault} (hinit : a.initConfig = true)
      (hwrite : ∃ text w w', (files.write settingsFileName text).run w = (.error fault, w')) :
      GetsOut files directory a w (.save (.access fault))
  /-- The settings are to be saved, but cannot be written. -/
  | unwritable {settings : Saved} {fault : Toml.WriteFault}
      (hsettings : InForce files directory a w settings) (hinit : a.initConfig = true)
      (htext : Toml.write settings.table = .error fault) (hfault : fault ≠ .longInteger) :
      GetsOut files directory a w (.save (.unwritable fault))
  /-- The description is set to something else than a text. -/
  | path {settings : Saved} (hsettings : InForce files directory a w settings)
      (hspec : IsMistaken settings.spec) : GetsOut files directory a w .notPath
  /-- The generation gives up. -/
  | generation {settings : Saved} {text : String} {inputs : Inputs} {failure : RunFailure}
      (hsettings : InForce files directory a w settings) (hspec : settings.spec = .string text)
      (hinputs : settings.inputs = .ok inputs) (h : GivesUp files (Path.ofString text) inputs failure) :
      GetsOut files directory a w (.generation failure)

/-- A failure of a run is reported, or is traced to what it comes from. -/
def IsTraced (files : FileSystem (StateM σ)) (directory : Path) (a : Arguments) (w : σ)
    (failure : Failure) : Prop :=
  failure.report?.isSome = true ∨ GetsOut files directory a w failure

theorem ofBytes_ends {place : String} {bytes : ByteArray} :
    Ends (fun _ => True)
      (fun failure => (Failure.load failure).report?.isSome = true
        ∨ ∃ fault, failure = .reader fault ∧ GivenUp bytes fault)
      (Saved.ofBytes place bytes) := by
  unfold Saved.ofBytes
  split
  · rename_i text htext
    split
    · exact Or.inl rfl
    · rename_i fault hmalformed hfault
      exact Or.inr ⟨fault, rfl, hmalformed, text, htext, hfault⟩
    · split
      · trivial
      · exact Or.inl rfl
      · exact Or.inl rfl
  · exact Or.inl rfl

/-- Settings are loaded, or it is said why not, or the reader of their format gives up. -/
theorem load_ends :
    EndsFrom w (Saved.load files settingsFileName directory.text) (fun _ _ => True)
      (fun failure => IsTraced files directory a w (.load failure)) := by
  unfold Saved.load
  refine EndsFrom.afterLift fun place w₁ _ => EndsFrom.afterLift fun isThere w₂ _ => ?_
  split
  · exact EndsFrom.pure trivial
  refine EndsFrom.afterLift fun r w₃ hfile => ?_
  cases r with
  | error fault => exact EndsFrom.throw (Or.inl rfl)
  | ok bytes =>
      refine EndsFrom.bind (P := fun _ _ => True) (EndsFrom.ask (ofBytes_ends.mono (fun _ h => h) ?_))
        fun _ _ _ _ => EndsFrom.pure trivial
      rintro failure (hreported | ⟨fault, rfl, hgiven⟩)
      · exact Or.inl hreported
      · exact Or.inr (.load ⟨w₂, w₃, hfile⟩ hgiven)

/-- Settings are saved, or the file is not written, or they cannot be written. -/
theorem save_ends {settings : Saved} (hsettings : InForce files directory a w settings)
    (hinit : a.initConfig = true) {w' : σ} :
    EndsFrom w' (settings.save files settingsFileName) (fun _ _ => True)
      (fun failure => IsTraced files directory a w (.save failure)) := by
  unfold Saved.save
  refine EndsFrom.afterLift fun r w'' hwrite => ?_
  cases r with
  | error fault => exact EndsFrom.throw (Or.inr (.access hinit ⟨_, _, _, hwrite⟩))
  | ok _ =>
      cases htext : Toml.write settings.table with
      | ok text => exact EndsFrom.pure trivial
      | error fault =>
          cases fault with
          | longInteger => exact EndsFrom.throw (Or.inl rfl)
          | text => exact EndsFrom.throw (Or.inr (.unwritable hsettings hinit htext nofun))
          | notTable => exact EndsFrom.throw (Or.inr (.unwritable hsettings hinit htext nofun))

/-- A run does what it is asked for, or its failure is traced. -/
theorem perform_ends :
    EndsFrom w (perform files print directory a) (fun _ _ => True) (IsTraced files directory a w) := by
  unfold perform
  refine EndsFrom.bind (load_ends.withRun.adapt fun _ h => h) fun saved w₁ _ hload => ?_
  extract_lets settings generating rest
  have hsettings : InForce files directory a w settings := ⟨saved, w₁, hload.1, rfl⟩
  have hgenerating : settings.spec.isSomething = true → ∀ w₂,
      EndsFrom w₂ (generating ()) (fun _ _ => True) (IsTraced files directory a w) := by
    intro hspec w₂
    have hshown : ∀ (v : Value) (w₃ : σ), EndsFrom w₃
        (ExceptT.mk (pure (v.shown.mapError .text)) : ExceptT Failure (StateM σ) String)
        (fun _ _ => True) (IsTraced files directory a w) := fun v w₃ =>
      EndsFrom.ask ((Ends.any v.shown).mapError fun _ _ => Or.inl rfl)
    refine (hshown settings.name w₂).bind fun _ w₂ _ _ => ?_
    refine (hshown settings.spec w₂).bind fun _ w₂ _ _ => ?_
    refine EndsFrom.afterLift fun _ w₃ _ => ?_
    refine EndsFrom.bind (P := fun inputs _ => settings.inputs = .ok inputs)
      (EndsFrom.ask (Ends.of_mapError fun _ => Or.inl rfl)) fun inputs w₄ _ hinputs => ?_
    split
    · rename_i text htext
      refine EndsFrom.bind (P := fun _ _ => True) (generate_ends.adapt fun failure hfailure => ?_)
        fun g w₅ _ _ => ?_
      · exact hfailure.imp_right fun hgiven => .generation hsettings htext hinputs hgiven
      exact EndsFrom.afterLift fun _ w₆ _ => EndsFrom.lift trivial
    · rename_i hother
      exact EndsFrom.throw (Or.inr (.path hsettings ⟨hspec, fun text heq => hother text heq⟩))
  have hrest : ∀ w₂, EndsFrom w₂ (rest ()) (fun _ _ => True) (IsTraced files directory a w) := by
    intro w₂
    dsimp only [rest]
    split
    · rename_i hinit
      refine ((save_ends hsettings hinit).adapt fun _ h => h).bind fun _ w₃ _ _ => ?_
      exact EndsFrom.afterLift fun _ _ _ => EndsFrom.pure trivial
    split
    · exact EndsFrom.bind (P := fun _ _ => False) (EndsFrom.throw (Or.inl rfl)) fun _ _ _ h => h.elim
    · rename_i hset
      simp only [Bool.or_eq_true, Bool.not_eq_true', not_or, Bool.not_eq_false] at hset
      exact hgenerating hset.2 w₂
  split
  · exact EndsFrom.afterLift fun _ w₂ _ => hrest w₂
  · exact hrest w₁

/-! ### How a run ends -/

/-- The ends of a run with arguments that are taken: normally, with a line about a failure, or otherwise. -/
inductive RunEnds (print : String → StateM σ Unit) (out : Failure → Prop) : Exit → σ → Prop where
  | normally (w : σ) : RunEnds print out { code := 0 } w
  | reporting {failure : Failure} {text : String} (w : σ) (htext : failure.report? = some text) :
      RunEnds print out { code := 1 } ((print ("❌ Ошибка генерации: " ++ text)).run w).2
  | otherwise {failure : Failure} (w : σ) (hout : out failure) :
      RunEnds print out { code := 0, unreported := some failure } w

/-- The exit from a program by what it ends with. -/
def exitOf (print : String → StateM σ Unit) : Except Failure Unit → StateM σ Exit
  | .ok () => return { code := 0 }
  | .error failure =>
    match failure.report? with
    | some text => do
      print ("❌ Ошибка генерации: " ++ text)
      return { code := 1 }
    | none => return { code := 0, unreported := some failure }

theorem runProgram_eq {args : List String} (hargs : parse args = .ok a) :
    runProgram files print directory args = (perform files print directory a).run >>= exitOf print := by
  unfold runProgram
  rw [hargs]
  refine bind_congr fun r => ?_
  cases r <;> rfl

/-- The exit from a program whose failures are traced. -/
theorem exitOf_ends {r : Except Failure Unit} (h : Ends (fun _ => True) (IsTraced files directory a w) r)
    (w' : σ) :
    RunEnds print (GetsOut files directory a w) ((exitOf print r).run w').1 ((exitOf print r).run w').2 := by
  cases r with
  | ok _ => exact .normally w'
  | error failure =>
      unfold exitOf
      dsimp only
      rcases h with hreported | hout
      · obtain ⟨text, htext⟩ := Option.isSome_iff_exists.mp hreported
        rw [htext]
        exact .reporting w' htext
      · cases hreport : failure.report? with
        | some text => exact .reporting w' hreport
        | none => exact .otherwise w' hout

/-! ### Settings in a table -/

/-- A table has a long integer under a key, or inside of what is there. -/
def HasLongAt (table : Fields Value) (key : String) : Prop :=
  ∃ v, Fields.get? table key = some v ∧ Holds Scalar.IsLong v

/-- A table has something under a key that is neither a list nor a text nor a table. -/
def HasNoListAt (table : Fields Value) (key : String) : Prop :=
  ∃ s, Fields.get? table key = some (.scalar s) ∧ ∀ text, s ≠ .string text

/-- Why a table holds no settings. -/
inductive IsTableFault (table : Fields Value) : Saved.TableFault → Prop where
  | notList {key : String} (hkey : key ∈ ["derives", "flags"]) (h : HasNoListAt table key) :
      IsTableFault table .notList
  | longInteger {key : String} (hkey : key ∈ ["language", "derives", "flags"])
      (h : HasLongAt table key) : IsTableFault table (.text .longInteger)

/-- A value that is to become a text has one, or the table is at fault. -/
theorem shown_mapError_ends {table : Fields Value} {v : Value}
    (hlong : Holds Scalar.IsLong v → IsTableFault table (.text .longInteger)) :
    Ends (fun _ => True) (IsTableFault table) (v.shown.mapError .text) := by
  refine ((shown_ends v).mono (fun _ _ => trivial) fun _ h => h).mapError ?_
  rintro fault ⟨rfl, h⟩
  exact hlong h

theorem textAt_ends (table : Fields Value) {key : String} (hkey : key ∈ ["language", "derives", "flags"])
    (default : String) :
    Ends (fun _ => True) (IsTableFault table) (Saved.textAt table key default) := by
  unfold Saved.textAt
  split
  · trivial
  · rename_i v hv
    exact shown_mapError_ends fun hlong => .longInteger hkey ⟨v, hv, hlong⟩

theorem textsAt_ends (table : Fields Value) {key : String} (hkey : key ∈ ["derives", "flags"]) :
    Ends (fun _ => True) (IsTableFault table) (Saved.textsAt table key) := by
  unfold Saved.textsAt
  split
  · trivial
  · rename_i v hv
    cases v with
    | list items =>
        refine (Ends.mapM (Q := fun _ => True) fun v hmem => ?_).mono (fun _ _ => trivial) fun _ h => h
        exact shown_mapError_ends fun hlong =>
          .longInteger (List.mem_cons_of_mem _ hkey) ⟨_, hv, .list hmem hlong⟩
    | mapping fields => trivial
    | scalar s =>
        cases s with
        | string text => trivial
        | null | bool | int | float | date | moment | clock | bytes =>
            exact .notList hkey ⟨_, hv, nofun⟩

/-- The settings of a table hold its values as they are, or a value in it is at fault. -/
theorem ofTable_ends (table : Fields Value) :
    Ends
      (fun s => s.name = (Fields.get? table "name").getD .null
        ∧ s.spec = (Fields.get? table "spec").getD .null
        ∧ s.outputDir = (Fields.get? table "output_dir").getD .null)
      (IsTableFault table) (Saved.ofTable table) := by
  unfold Saved.ofTable
  refine (textAt_ends table (by decide) _).bind fun _ _ => ?_
  refine (textsAt_ends table (by decide)).bind fun _ _ => ?_
  exact (textsAt_ends table (by decide)).bind fun _ _ => ⟨rfl, rfl, rfl⟩

/-- The failure of a file whose table is at fault. -/
def failureOf (place : String) : Saved.TableFault → LoadFailure
  | .notList => .file place .notList
  | .text fault => .text fault

theorem ofBytes_table {place text : String} {bytes : ByteArray} {table : Fields Value}
    (htext : String.fromUTF8? bytes = some text) (htable : Toml.read text = .ok table) :
    Ends
      (fun s => s.name = (Fields.get? table "name").getD .null
        ∧ s.spec = (Fields.get? table "spec").getD .null
        ∧ s.outputDir = (Fields.get? table "output_dir").getD .null)
      (fun failure => ∃ fault, IsTableFault table fault ∧ failure = failureOf place fault)
      (Saved.ofBytes place bytes) := by
  have hends := ofTable_ends table
  unfold Saved.ofBytes
  rw [htext]
  dsimp only
  rw [htable]
  dsimp only
  cases hsaved : Saved.ofTable table with
  | ok saved => exact hends.of_ok hsaved
  | error fault =>
      have hfault := hends.of_error hsaved
      cases fault with
      | notList => exact ⟨_, hfault, rfl⟩
      | text cause => exact ⟨_, hfault, rfl⟩

/--
**How runs end**: normally, with a line about the failure, or with a failure that is traced to
what it comes from.  Settings in a table hold its values, of whatever kind they are.
-/
theorem runProgram_ends (files : FileSystem (StateM σ)) (print : String → StateM σ Unit)
    (directory : Path) :
    (∀ (args : List String) (a : Arguments) (w : σ), parse args = .ok a →
      RunEnds print (GetsOut files directory a w) ((runProgram files print directory args).run w).1
        ((runProgram files print directory args).run w).2)
    ∧ ∀ (place text : String) (bytes : ByteArray) (table : Fields Value),
        String.fromUTF8? bytes = some text → Toml.read text = .ok table →
          Ends
            (fun s => s.name = (Fields.get? table "name").getD .null
              ∧ s.spec = (Fields.get? table "spec").getD .null
              ∧ s.outputDir = (Fields.get? table "output_dir").getD .null)
            (fun failure => ∃ fault, IsTableFault table fault ∧ failure = failureOf place fault)
            (Saved.ofBytes place bytes) := by
  refine ⟨fun args a w hargs => ?_, fun place text bytes table => ofBytes_table⟩
  rw [runProgram_eq hargs]
  cases hrun : (perform files print directory a).run.run w with
  | mk r w' =>
      have hbind : ((perform files print directory a).run >>= exitOf print).run w
          = (exitOf print r).run w' := by
        rw [StateT.run_bind, hrun]
        rfl
      rw [hbind]
      exact exitOf_ends (perform_ends.of_run hrun) w'

/-- Settings in which the description is a number. -/
def numberedSpec : String := "name = \"Doors\"\nspec = 3\n"

/-- A tree with nothing but settings in which the description is a number. -/
def numberedTree : Tree := Tree.put {} [settingsFileName] (.file numberedSpec.toUTF8)

/-- A run without arguments at the root of a tree. -/
def runAtRoot (t : Tree) : Exit × Tree :=
  (runProgram (Tree.fileSystem []) (fun _ => pure ()) ⟨"/", []⟩ []).run t

theorem runProgram_ends_numberedSpec :
    parse [] = .ok {} ∧ String.fromUTF8? numberedSpec.toUTF8 = some numberedSpec
      ∧ Toml.read numberedSpec = .ok [("name", .string "Doors"), ("spec", .int 3)]
      ∧ RunEnds (fun _ => pure ()) (GetsOut (Tree.fileSystem []) ⟨"/", []⟩ {} numberedTree)
        (runAtRoot numberedTree).1 (runAtRoot numberedTree).2
      ∧ Ends (fun s => s.name = .string "Doors" ∧ s.spec = .int 3 ∧ s.outputDir = .null)
        (fun failure => ∃ fault, IsTableFault [("name", .string "Doors"), ("spec", .int 3)] fault
          ∧ failure = failureOf settingsFileName fault)
        (Saved.ofBytes settingsFileName numberedSpec.toUTF8) := by
  have hargs : parse [] = .ok {} := rfl
  have htext : String.fromUTF8? numberedSpec.toUTF8 = some numberedSpec := by decide +kernel
  have htable : Toml.read numberedSpec = .ok [("name", .string "Doors"), ("spec", .int 3)] := by
    decide +kernel
  obtain ⟨hruns, htables⟩ := runProgram_ends (Tree.fileSystem []) (fun _ => pure ()) ⟨"/", []⟩
  exact ⟨hargs, htext, htable, hruns [] {} numberedTree hargs,
    htables settingsFileName numberedSpec _ _ htext htable⟩

/-- **A description that is a number gets out**: it is loaded, and the run ends without a line about it. -/
theorem not_reported_numberedTree :
    (runAtRoot numberedTree).1.unreported.map Failure.report? = some none
      ∧ (runAtRoot numberedTree).2.entries.map Prod.fst = [[settingsFileName]]
      ∧ (¬ ∀ t, (runAtRoot t).1.unreported.isNone = true)
      ∧ ¬ ∀ (place : String) (bytes : ByteArray) (s : Saved), Saved.ofBytes place bytes = .ok s →
        Saved.IsOption s.name ∧ Saved.IsOption s.spec ∧ Saved.IsOption s.outputDir := by
  have hrun : (runAtRoot numberedTree).1.unreported.map Failure.report? = some none := by
    decide +kernel
  have hentries : (runAtRoot numberedTree).2.entries.map Prod.fst = [[settingsFileName]] := by
    decide +kernel
  refine ⟨hrun, hentries, fun hall => ?_, fun hall => ?_⟩
  · have hnone := hall numberedTree
    rw [Option.isNone_iff_eq_none] at hnone
    rw [hnone] at hrun
    cases hrun
  · have hspec : (Saved.ofBytes settingsFileName numberedSpec.toUTF8).toOption.map (·.spec)
        = some (.int 3) := by
      decide +kernel
    cases hload : Saved.ofBytes settingsFileName numberedSpec.toUTF8 with
    | error failure =>
        rw [hload] at hspec
        cases hspec
    | ok s =>
        rw [hload] at hspec
        have hnumber : s.spec = .int 3 := Option.some.inj hspec
        obtain ⟨-, hoption, -⟩ := hall _ _ s hload
        rw [hnumber] at hoption
        rcases hoption with hnull | ⟨text, htext⟩
        · cases hnull
        · cases htext

end ApiClientGen.CommandLine
