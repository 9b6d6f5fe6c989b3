/-
Where the files of a client go.

The files of a client are named after the package and after the operations, and both are made of
small letters, digits and low lines.  So no name has a slash or a dot of its own, a file lies in
the directory of the package or in that of the examples, and both lie below the destination.

There are two gaps in this.  A package without a name has no directory, and what should be in
front of the slash is missing: the path begins at the root.  And a package that is called like
the directory of the examples shares it with them.
-/
import ApiClientGen.Client.Library
import ApiClientGen.Code.Output
import ApiClientGen.Proofs.Client.MethodNames
import ApiClientGen.Proofs.Client.ModelsFile
import ApiClientGen.Proofs.Reference.Pointers
import ApiClientGen.Proofs.Settings.PackageNames

namespace ApiClientGen.Files

open ApiClientGen.Text

/-! ### Below a directory -/

/-- A path goes on from another one by names, none of which is a step up. -/
def Path.IsBelow (base p : Path) : Prop :=
  p.root = base.root ∧ ∃ names, p.names = base.names ++ names ∧ ".." ∉ names

/-- What is relative and has no steps up leads below the path that it is joined to. -/
theorem Path.isBelow_join {base below : Path} (hroot : below.root = "")
    (hsteps : ".." ∉ below.names) : base.IsBelow (base.join below) := by
  unfold Path.join
  rw [if_neg (by simp [hroot])]
  exact ⟨rfl, below.names, rfl, hsteps⟩

/-- The path of two names with a slash between them; without the first one it begins at the root. -/
theorem Path.ofString_slash {a b : String} (ha : '/' ∉ a.toList) (hb : '/' ∉ b.toList)
    (hne : b ≠ "") :
    Path.ofString (a ++ "/" ++ b) = ⟨if a = "" then "/" else "", [a, b].filter Path.isName⟩ := by
  have hpieces : splitOn '/' (a ++ "/" ++ b).toList = [a.toList, b.toList] := by
    have hlist : (a ++ "/" ++ b).toList = a.toList ++ '/' :: b.toList := by simp
    rw [hlist, splitOn_append_cons ha, splitOn_of_notMem hb]
  have hroot : Path.rootOf (a ++ "/" ++ b).toList = if a = "" then "/" else "" := by
    have hlist : (a ++ "/" ++ b).toList = a.toList ++ '/' :: b.toList := by simp
    have hbList : b.toList ≠ [] := fun hnil => hne (String.toList_inj.mp hnil)
    obtain ⟨d, more, hcons⟩ := List.exists_cons_of_ne_nil hbList
    have hd : d ≠ '/' := fun hslash => hb (by rw [hcons, hslash]; simp)
    rw [hlist, hcons]
    by_cases hempty : a = ""
    · subst hempty
      simp [Path.rootOf, hd]
    · have haList : a.toList ≠ [] := fun hnil => hempty (String.toList_inj.mp hnil)
      obtain ⟨c, rest, hconsA⟩ := List.exists_cons_of_ne_nil haList
      have hc : c ≠ '/' := fun hslash => ha (by rw [hconsA, hslash]; simp)
      rw [hconsA, if_neg hempty]
      simp [Path.rootOf, hc]
  unfold Path.ofString pieces
  rw [hroot, hpieces]
  simp

/-- Two uses of files are the same on everything below a directory. -/
structure AgreeBelow {m : Type → Type} (base : Path) (files files' : FileSystem m) : Prop where
  write : ∀ p, base.IsBelow p → ∀ content, files.write p.text content = files'.write p.text content
  makeDirectories : ∀ p, base.IsBelow p →
    files.makeDirectories p.parent.text = files'.makeDirectories p.parent.text

end ApiClientGen.Files

namespace ApiClientGen.Code

open ApiClientGen.Files

variable {m : Type → Type} [Monad m]

/-- **A project whose files lie below a directory is written there**: writing it depends on
nothing else. -/
theorem Project.write_congr {files files' : FileSystem m} {directory : Path} {p : Project}
    (hagree : AgreeBelow directory files files')
    (hbelow : ∀ f ∈ p.files, directory.IsBelow (f.target directory)) :
    p.write files directory = p.write files' directory := by
  have hfile : ∀ f ∈ p.files, f.write files directory = f.write files' directory := by
    intro f hf
    unfold CodeFile.write
    dsimp only
    rw [hagree.makeDirectories _ (hbelow f hf), hagree.write _ (hbelow f hf)]
  unfold Project.write List.mapM
  generalize p.files = all at hfile
  generalize ([] : List Path) = done
  induction all generalizing done with
  | nil => rfl
  | cons f rest ih =>
      unfold List.mapM.loop
      rw [hfile f (by simp)]
      refine congrArg _ (funext fun path => ?_)
      exact ih (fun f' hf' => hfile f' (by simp [hf'])) (path :: done)

end ApiClientGen.Code

namespace ApiClientGen.Client

open ApiClientGen.Canonical ApiClientGen.Code ApiClientGen.Document ApiClientGen.Extraction
open ApiClientGen.Files ApiClientGen.Naming ApiClientGen.Settings ApiClientGen.Spec
open ApiClientGen.Text

variable {spec : ApiSpec} {g : Generation} {project : Project}

/-! ### The names of the files -/

/-- The files in the directory of the package. -/
def packageFileNames : List String := ["common.py", "models.py", "client.py", "__init__.py"]

/-- The names of the files that every client has. -/
def fixedPaths (package : String) : List String :=
  ["pyproject.toml", "README.md"] ++ packageFileNames.map fun name => package ++ "/" ++ name

/-- The name of the example for an operation. -/
def examplePath (operation : String) : String := "examples/" ++ methodName operation ++ ".py"

/-- The names of the files of a client: those that every client has, and those of the examples. -/
theorem paths_library (h : library spec g = .ok project) :
    project.files.map (·.path) = fixedPaths g.packageName
      ++ (if g.buildExamples then spec.operations.map fun o => examplePath o.name else []) := by
  unfold library at h
  obtain ⟨bases, -, h⟩ := except_bind_ok.mp h
  split at h
  · rename_i package hpackage
    dsimp only at h
    split at h
    · cases h
    split at h
    · cases h
    · cases h
      have hpath : package.path = "pyproject.toml" := by
        unfold packageFile? at hpackage
        obtain ⟨text, -, heq⟩ := Option.bind_eq_some_iff.mp hpackage
        cases heq
        rfl
      have hslash : ∀ name, g.packageName ++ "/" ++ name = g.packageName ++ ("/" ++ name) :=
        fun name => String.append_assoc
      have hfixed : ([package, readmeFile spec g (baseUrl spec),
          BaseFile.file g.packageName (Text.quoted (baseUrl spec)), modelsFile spec g bases,
          clientFile spec g, exportsFile g]).map (·.path) = fixedPaths g.packageName := by
        simp [hpath, hslash, path_modelsFile, fixedPaths, packageFileNames, readmeFile,
          BaseFile.file, CodeFile.ofCode, clientFile, exportsFile]
      rw [List.map_append, hfixed]
      by_cases hexamples : g.buildExamples = true
      · simp [hexamples, examplePath]
      · simp [hexamples]
  · cases h

/-! ### Below the destination -/

/-- Small letters, digits and low lines are neither slashes nor dots. -/
theorem ne_of_isSmallChar_or_lowLine {c : Char} (h : isSmallChar c = true ∨ c = '_') :
    c ≠ '/' ∧ c ≠ '.' := by
  constructor
  · rintro rfl
    revert h
    decide
  · rintro rfl
    revert h
    decide

theorem methodName_chars {d : CanonicalDocument} (hspec : extract d = .ok spec) {o : Operation}
    (ho : o ∈ spec.operations) {c : Char} (hc : c ∈ (methodName o.name).toList) :
    isSmallChar c = true ∨ c = '_' := by
  have hsnake := (operationNames_of_extract hspec).2 o ho
  exact (isMarked_methodName hsnake).isSmallChar_or_lowLine hsnake hc

/-- A file of the package is below the directory of the package, or at the root if that has no name. -/
theorem relative_packageFile {name : String} (hname : name ∈ packageFileNames) :
    ((Path.ofString (g.packageName ++ "/" ++ name)).root = ""
        ∨ (g.packageName = "" ∧ (Path.ofString (g.packageName ++ "/" ++ name)).root = "/"))
      ∧ ".." ∉ (Path.ofString (g.packageName ++ "/" ++ name)).names := by
  have hnames : ∀ n ∈ packageFileNames, '/' ∉ n.toList ∧ n ≠ "" ∧ n ≠ ".." := by decide
  obtain ⟨hslash, hne, hsteps⟩ := hnames name hname
  have hchars : ∀ c ∈ g.packageName.toList, c ≠ '/' ∧ c ≠ '.' :=
    fun c hc => ne_of_isSmallChar_or_lowLine (packageName_chars hc)
  have hpackageSlash : '/' ∉ g.packageName.toList := fun hc => (hchars _ hc).1 rfl
  have hpackageSteps : g.packageName ≠ ".." := by
    intro heq
    exact (hchars '.' (by rw [heq]; decide)).2 rfl
  rw [Path.ofString_slash hpackageSlash hslash hne]
  refine ⟨?_, fun hmem => ?_⟩
  · by_cases hpackage : g.packageName = ""
    · exact Or.inr ⟨hpackage, if_pos hpackage⟩
    · exact Or.inl (if_neg hpackage)
  · have hmem := (List.mem_filter.mp hmem).1
    simp only [List.mem_cons, List.not_mem_nil, or_false] at hmem
    exact hmem.elim (fun h => hpackageSteps h.symm) fun h => hsteps h.symm

/-- The example for an operation is below the directory of the examples. -/
theorem relative_examplePath {d : CanonicalDocument} (hspec : extract d = .ok spec) {o : Operation}
    (ho : o ∈ spec.operations) :
    (Path.ofString (examplePath o.name)).root = "" ∧ ".." ∉ (Path.ofString (examplePath o.name)).names := by
  have hslash : '/' ∉ (methodName o.name ++ ".py").toList := by
    rw [String.toList_append, List.mem_append]
    rintro (hc | hc)
    · exact (ne_of_isSmallChar_or_lowLine (methodName_chars hspec ho hc)).1 rfl
    · revert hc
      decide
  have hlast : (methodName o.name ++ ".py").toList.getLast? = some 'y' := by simp
  have hne : methodName o.name ++ ".py" ≠ "" := by
    intro heq
    simp [heq] at hlast
  have hsteps : methodName o.name ++ ".py" ≠ ".." := by
    intro heq
    simp [heq] at hlast
  have heq : examplePath o.name = "examples" ++ "/" ++ (methodName o.name ++ ".py") := by
    simp [examplePath, String.append_assoc]
  rw [heq, Path.ofString_slash (by decide) hslash hne]
  refine ⟨rfl, fun hmem => ?_⟩
  have hmem := (List.mem_filter.mp hmem).1
  simp only [List.mem_cons, List.not_mem_nil, or_false] at hmem
  exact hmem.elim (by decide) fun h => hsteps h.symm

/-- The files take no steps up, and they are relative unless the package has no name. -/
theorem relative_of_mem_paths {d : CanonicalDocument} (hspec : extract d = .ok spec) {path : String}
    (hpath : path ∈ fixedPaths g.packageName ++ spec.operations.map fun o => examplePath o.name) :
    ((Path.ofString path).root = "" ∨ (g.packageName = "" ∧ (Path.ofString path).root = "/"))
      ∧ ".." ∉ (Path.ofString path).names := by
  rcases List.mem_append.mp hpath with hfixed | hexample
  · rcases List.mem_append.mp hfixed with htop | hinside
    · have htops : ∀ name ∈ ["pyproject.toml", "README.md"],
          (Path.ofString name).root = "" ∧ ".." ∉ (Path.ofString name).names := by decide
      exact (htops path htop).imp Or.inl id
    · obtain ⟨name, hname, rfl⟩ := List.mem_map.mp hinside
      exact relative_packageFile hname
  · obtain ⟨o, ho, rfl⟩ := List.mem_map.mp hexample
    exact (relative_examplePath hspec ho).imp Or.inl id

/-- The files of a package without a name begin at the root. -/
theorem target_of_packageName_empty (hpackage : g.packageName = "")
    (hproject : library spec g = .ok project) (directory : Path) {name : String}
    (hname : name ∈ packageFileNames) :
    ∃ f ∈ project.files, f.target directory = ⟨"/", [name]⟩ := by
  have hmem : g.packageName ++ "/" ++ name ∈ project.files.map (·.path) := by
    rw [paths_library hproject, fixedPaths]
    exact List.mem_append_left _ (List.mem_append_right _
      (List.mem_map_of_mem (f := fun name => g.packageName ++ "/" ++ name) hname))
  obtain ⟨f, hf, hpath⟩ := List.mem_map.mp hmem
  have hnames : ∀ n ∈ packageFileNames, directory.join (Path.ofString ("" ++ "/" ++ n)) = ⟨"/", [n]⟩ := by
    intro n hn
    have hroot : ∀ n ∈ packageFileNames, Path.ofString ("" ++ "/" ++ n) = ⟨"/", [n]⟩ := by decide
    rw [hroot n hn]
    rfl
  refine ⟨f, hf, ?_⟩
  unfold CodeFile.target
  rw [hpath, hpackage]
  exact hnames name hname

/-- The files of a client lie below its destination. -/
def StaysBelow (g : Generation) (project : Project) : Prop :=
  ∀ f ∈ project.files, g.destination.IsBelow (f.target g.destination)

theorem staysBelow_of_packageName {d : CanonicalDocument} (hspec : extract d = .ok spec)
    (hproject : library spec g = .ok project)
    (h : g.packageName ≠ "" ∨ g.destination = ⟨"/", []⟩) : StaysBelow g project := by
  intro f hf
  have hmem : f.path ∈ project.files.map (·.path) := List.mem_map_of_mem hf
  rw [paths_library hproject] at hmem
  have hpath : f.path ∈ fixedPaths g.packageName
      ++ spec.operations.map fun o => examplePath o.name := by
    rcases List.mem_append.mp hmem with hfixed | hexample
    · exact List.mem_append_left _ hfixed
    · by_cases hexamples : g.buildExamples = true
      · rw [if_pos hexamples] at hexample
        exact List.mem_append_right _ hexample
      · rw [if_neg hexamples] at hexample
        cases hexample
  obtain ⟨hroot | ⟨hpackage, hroot⟩, hsteps⟩ := relative_of_mem_paths hspec hpath
  · exact Path.isBelow_join hroot hsteps
  · -- Such a file lies at the root, wherever the destination is.
    have hdestination : g.destination = ⟨"/", []⟩ := h.resolve_left fun hne => hne hpackage
    unfold CodeFile.target Path.join
    rw [hdestination, hroot, if_pos (by decide)]
    exact ⟨hroot, _, rfl, hsteps⟩

/-- Below the root lies everything that begins there, and there are two such files. -/
theorem destination_of_staysBelow (hproject : library spec g = .ok project)
    (hpackage : g.packageName = "") (hbelow : StaysBelow g project) : g.destination = ⟨"/", []⟩ := by
  have hcommon : "common.py" ∈ packageFileNames := by decide
  have hmodels : "models.py" ∈ packageFileNames := by decide
  obtain ⟨f, hf, htarget⟩ := target_of_packageName_empty hpackage hproject g.destination hcommon
  obtain ⟨f', hf', htarget'⟩ := target_of_packageName_empty hpackage hproject g.destination hmodels
  obtain ⟨hroot, names, hnames, -⟩ := htarget ▸ hbelow f hf
  obtain ⟨-, names', hnames', -⟩ := htarget' ▸ hbelow f' hf'
  have hnil : g.destination.names = [] := by
    cases hdestination : g.destination.names with
    | nil => rfl
    | cons first rest =>
        rw [hdestination] at hnames hnames'
        simp only [List.cons_append, List.cons.injEq] at hnames hnames'
        exact absurd (hnames.1.trans hnames'.1.symm) (by decide)
  calc g.destination = ⟨g.destination.root, g.destination.names⟩ := rfl
    _ = ⟨"/", []⟩ := by rw [hnil, ← hroot]

/--
**A client stays below its destination** if and only if the name that is asked for has a letter or
a digit, or the destination is the root itself; and writing a client that stays there neither
makes a directory nor writes a file anywhere else.
-/
theorem staysBelow_iff {d : CanonicalDocument} {inputs : Inputs} {directory : Path} {name : String}
    (hspec : extract d = .ok spec) (hname : inputs.name = .string name)
    (hg : inputs.generation directory = .ok g) (hproject : library spec g = .ok project) :
    (StaysBelow g project
        ↔ (∃ c ∈ name.toList, isWordChar c = true) ∨ g.destination = ⟨"/", []⟩)
      ∧ (StaysBelow g project → ∀ (m : Type → Type) [Monad m] (files files' : FileSystem m),
          AgreeBelow g.destination files files' →
            project.write files g.destination = project.write files' g.destination) := by
  obtain ⟨asked, hasked, hpascal, -⟩ := generation_ok hg
  obtain rfl : asked = name := Value.scalar.inj (hasked.symm.trans hname) |> Scalar.string.inj
  have hempty := packageName_eq_empty_iff hpascal
  refine ⟨⟨fun hbelow => ?_, fun h => ?_⟩, fun hbelow m _ files files' hagree =>
    Project.write_congr hagree hbelow⟩
  · by_cases hpackage : g.packageName = ""
    · exact Or.inr (destination_of_staysBelow hproject hpackage hbelow)
    · rw [hempty] at hpackage
      simp only [not_forall, Bool.not_eq_false] at hpackage
      obtain ⟨c, hc, hword⟩ := hpackage
      exact Or.inl ⟨c, hc, hword⟩
  · refine staysBelow_of_packageName hspec hproject (h.imp_left fun ⟨c, hc, hword⟩ hpackage => ?_)
    rw [hempty.mp hpackage c hc] at hword
    cases hword

/-- A name that tries to climb out of the destination, and the directory it is asked for in. -/
def climbingInputs : Inputs := { name := .string "../../etc/Doors", outputDir := .string "out/../client" }

/-- The directory that the program runs in. -/
def homeDirectory : Path := ⟨"/", ["home"]⟩

/-- The texts of the paths that the files for a document are written to. -/
def targetsOf (d : CanonicalDocument) (inputs : Inputs) : Option (List String) :=
  (extract d).toOption.bind fun spec =>
    (inputs.generation homeDirectory).toOption.bind fun g =>
      (library spec g).toOption.map fun project =>
        project.files.map fun f => (f.target g.destination).text

theorem staysBelow_doorDocument :
    (targetsOf doorDocument climbingInputs).map (·.take 3)
        = some ["out/../client/pyproject.toml", "out/../client/README.md",
          "out/../client/etc_doors/common.py"]
      ∧ ∃ spec g project, extract doorDocument = .ok spec
        ∧ climbingInputs.generation homeDirectory = .ok g
        ∧ library spec g = .ok project ∧ StaysBelow g project := by
  obtain ⟨spec, hspec⟩ := except_exists_ok (x := extract doorDocument) (by decide +kernel)
  obtain ⟨g, hg⟩ := except_exists_ok (x := climbingInputs.generation homeDirectory)
    (by decide)
  obtain ⟨project, hproject⟩ := except_exists_ok
    (x := (extract doorDocument).toOption.elim (.error .unnamedModel) fun spec =>
      (climbingInputs.generation homeDirectory).toOption.elim (.error .unnamedModel) (library spec))
    (by decide +kernel)
  rw [hspec, hg] at hproject
  have hword : ∃ c ∈ "../../etc/Doors".toList, isWordChar c = true := ⟨'e', by decide, by decide⟩
  exact ⟨by decide +kernel, spec, g, project, hspec, hg, hproject,
    (staysBelow_iff hspec rfl hg hproject).1.mpr (Or.inl hword)⟩

/-- A name that no package can be called by. -/
def unnamedInputs : Inputs := { name := .string "_", outputDir := .string "out" }

/-- **Files are written beside the destination** where the name has neither letters nor digits. -/
theorem not_staysBelow_doorDocument :
    (targetsOf doorDocument unnamedInputs).map (·.take 3)
        = some ["out/pyproject.toml", "out/README.md", "/common.py"]
      ∧ ¬ ∀ d spec inputs directory g project, extract d = .ok spec →
        Inputs.generation directory inputs = .ok g → library spec g = .ok project →
          StaysBelow g project := by
  refine ⟨by decide +kernel, fun h => ?_⟩
  obtain ⟨spec, hspec⟩ := except_exists_ok (x := extract doorDocument) (by decide +kernel)
  obtain ⟨g, hg⟩ := except_exists_ok (x := unnamedInputs.generation homeDirectory)
    (by decide)
  obtain ⟨project, hproject⟩ := except_exists_ok
    (x := (extract doorDocument).toOption.elim (.error .unnamedModel) fun spec =>
      (unnamedInputs.generation homeDirectory).toOption.elim (.error .unnamedModel) (library spec))
    (by decide +kernel)
  rw [hspec, hg] at hproject
  have hpackage : g.packageName = "" := by
    obtain ⟨name, hname, hpascal, -⟩ := generation_ok hg
    obtain rfl : "_" = name := Scalar.string.inj (Value.scalar.inj hname)
    refine (packageName_eq_empty_iff hpascal).mpr fun c hc => ?_
    obtain rfl : c = '_' := by simpa using hc
    decide
  have hdestination : g.destination ≠ ⟨"/", []⟩ := by
    obtain ⟨name, -, -, hdestination⟩ := generation_ok hg
    have hout : destinationOf homeDirectory (.string "out") = .ok ⟨"", ["out"]⟩ := by decide
    rw [Except.ok.inj (hdestination.symm.trans hout)]
    decide
  exact hdestination (destination_of_staysBelow hproject hpackage
    (h _ _ _ _ _ _ hspec hg hproject))

/-! ### No file is written twice -/

theorem fixedPaths_nodup (package : String) : (fixedPaths package).Nodup := by
  have hslash : ∀ name, '/' ∈ (package ++ "/" ++ name).toList := by simp
  refine List.nodup_append.mpr ⟨by decide, ?_, ?_⟩
  · refine List.Nodup.map (fun a b h => ?_) (by decide)
    simpa using h
  · intro a ha b hb heq
    obtain ⟨name, -, rfl⟩ := List.mem_map.mp hb
    have htops : ∀ top ∈ ["pyproject.toml", "README.md"], '/' ∉ top.toList := by decide
    exact htops a ha (heq ▸ hslash name)

/-- Two names around a slash are read off a path. -/
theorem slash_inj {a b a' b' : String} (ha : '/' ∉ a.toList) (ha' : '/' ∉ a'.toList)
    (h : a ++ "/" ++ b = a' ++ "/" ++ b') : a = a' ∧ b = b' := by
  have hlist : a.toList ++ '/' :: b.toList = a'.toList ++ '/' :: b'.toList := by
    have := congrArg String.toList h
    simpa using this
  have hsplit := congrArg (splitOn '/') hlist
  rw [splitOn_append_cons ha, splitOn_append_cons ha'] at hsplit
  have haa : a.toList = a'.toList := (List.cons.inj hsplit).1
  rw [haa] at hlist
  exact ⟨String.toList_inj.mp haa,
    String.toList_inj.mp (List.cons.inj (List.append_cancel_left hlist)).2⟩

/-- Only methods called like the base file and the models file can have their names. -/
theorem methodName_eq_of_mem {operation : String} (hsnake : IsSnakeName operation)
    (h : methodName operation ++ ".py" ∈ packageFileNames) :
    operation = "common" ∨ operation = "models" := by
  have hends : ∀ n ∈ packageFileNames,
      n = "common" ++ ".py" ∨ n = "models" ++ ".py" ∨ n = "client" ++ ".py" ∨ n = "__init__" ++ ".py" := by
    decide
  have hread : ∀ text core, trimBy (· == '_') text.toList = core.toList →
      methodName operation = text → operation = core := by
    rintro text core htrim rfl
    exact String.toList_inj.mp (((isMarked_methodName hsnake).trimBy_eq hsnake).symm.trans htrim)
  have hcut : ∀ text, methodName operation ++ ".py" = text ++ ".py" → methodName operation = text := by
    intro text heq
    simpa using heq
  rcases hends _ h with h | h | h | h
  · exact Or.inl (hread "common" "common" (by decide) (hcut _ h))
  · exact Or.inr (hread "models" "models" (by decide) (hcut _ h))
  -- The method of an operation with one of the other two names is called differently.
  · have hname := hcut _ h
    rw [hread "client" "client" (by decide) hname] at hname
    exact absurd hname (by decide)
  · have hname := hcut _ h
    rw [hread "__init__" "init" (by decide) hname] at hname
    exact absurd hname (by decide)

/-- An example has the name of a fixed file if it is that of a file in the same directory. -/
theorem examplePath_mem_fixedPaths_iff {operation : String} (hsnake : IsSnakeName operation) :
    examplePath operation ∈ fixedPaths g.packageName
      ↔ g.packageName = "examples" ∧ (operation = "common" ∨ operation = "models") := by
  have hexample : examplePath operation = "examples" ++ "/" ++ (methodName operation ++ ".py") := by
    simp [examplePath, String.append_assoc]
  have hpackageSlash : '/' ∉ g.packageName.toList :=
    fun hc => (ne_of_isSmallChar_or_lowLine (packageName_chars hc)).1 rfl
  constructor
  · intro hmem
    rcases List.mem_append.mp hmem with htop | hinside
    · have htops : ∀ top ∈ ["pyproject.toml", "README.md"], '/' ∉ top.toList := by decide
      exact absurd (by rw [hexample]; simp) (htops _ htop)
    · obtain ⟨name, hname, heq⟩ := List.mem_map.mp hinside
      rw [hexample] at heq
      obtain ⟨hpackage, hfile⟩ := slash_inj hpackageSlash (by decide) heq
      exact ⟨hpackage, methodName_eq_of_mem hsnake (hfile ▸ hname)⟩
  · rintro ⟨hpackage, rfl | rfl⟩
    · rw [hpackage]
      decide
    · rw [hpackage]
      decide

/--
**No file of a client has the name of another one** unless the package is called like the directory
of the examples, and an operation like a file of the package.
-/
theorem nodup_paths_iff {d : CanonicalDocument} (hspec : extract d = .ok spec)
    (hproject : library spec g = .ok project) :
    (project.files.map (·.path)).Nodup
      ↔ ¬ (g.buildExamples = true ∧ g.packageName = "examples"
        ∧ ∃ o ∈ spec.operations, o.name = "common" ∨ o.name = "models") := by
  obtain ⟨hnodup, hsnake⟩ := operationNames_of_extract hspec
  rw [paths_library hproject]
  by_cases hexamples : g.buildExamples = true
  · rw [if_pos hexamples]
    have hdistinct : (spec.operations.map fun o => examplePath o.name).Nodup := by
      refine (hnodup.of_map _).map_on fun a ha b hb hsame => ?_
      have hmethod : methodName a.name = methodName b.name := by simpa [examplePath] using hsame
      exact List.inj_on_of_nodup_map hnodup ha hb
        (methodName_injective (hsnake a ha) (hsnake b hb) hmethod)
    constructor
    · rintro hall ⟨-, hpackage, o, ho, hname⟩
      have hfixed := (examplePath_mem_fixedPaths_iff (hsnake o ho)).mpr ⟨hpackage, hname⟩
      exact (List.nodup_append.mp hall).2.2 _ hfixed _ (List.mem_map_of_mem ho) rfl
    · intro hnone
      refine List.nodup_append.mpr ⟨fixedPaths_nodup _, hdistinct, ?_⟩
      intro a ha b hb heq
      obtain ⟨o, ho, rfl⟩ := List.mem_map.mp hb
      obtain ⟨hpackage, hname⟩ := (examplePath_mem_fixedPaths_iff (hsnake o ho)).mp (heq ▸ ha)
      exact hnone ⟨hexamples, hpackage, o, ho, hname⟩
  · rw [if_neg hexamples, List.append_nil]
    exact iff_of_true (fixedPaths_nodup _) fun h => hexamples h.1

/-- A client in a package that is called like the directory of its examples. -/
def examplesGeneration : Generation := { name := "Examples", destination := ⟨"", []⟩ }

/-- The names of the files of that client for a document. -/
def pathsOf (d : CanonicalDocument) : Option (List String) :=
  (extract d).toOption.bind fun spec =>
    (library spec examplesGeneration).toOption.map fun project => project.files.map (·.path)

theorem nodup_paths_doorDocument :
    pathsOf doorDocument = some ["pyproject.toml", "README.md", "examples/common.py",
        "examples/models.py", "examples/client.py", "examples/__init__.py", "examples/close_.py",
        "examples/close_2.py", "examples/class_.py", "examples/_2_doors.py", "examples/close2.py",
        "examples/get_by_id.py"]
      ∧ ∃ spec project, extract doorDocument = .ok spec
        ∧ library spec examplesGeneration = .ok project
        ∧ (project.files.map (·.path)).Nodup := by
  obtain ⟨spec, hspec⟩ := except_exists_ok (x := extract doorDocument) (by decide +kernel)
  obtain ⟨project, hproject⟩ := except_exists_ok
    (x := (extract doorDocument).toOption.elim (.error .unnamedModel) (library · examplesGeneration))
    (by decide +kernel)
  have hnames : (extract doorDocument).toOption.map (fun spec => spec.operations.map (·.name))
      = some ["close", "close_2", "class", "2_doors", "close2", "get_by_id"] := by decide +kernel
  rw [hspec] at hproject hnames
  have hnames : spec.operations.map (·.name)
      = ["close", "close_2", "class", "2_doors", "close2", "get_by_id"] := by
    simpa [Except.toOption] using hnames
  refine ⟨by decide +kernel, spec, project, hspec, hproject,
    (nodup_paths_iff hspec hproject).mpr fun hclash => ?_⟩
  obtain ⟨-, -, o, ho, hname⟩ := hclash
  have hmem : o.name ∈ spec.operations.map (·.name) := List.mem_map_of_mem ho
  rw [hnames] at hmem
  rcases hname with hname | hname
  · rw [hname] at hmem
    exact absurd hmem (by decide)
  · rw [hname] at hmem
    exact absurd hmem (by decide)

/-- An operation that is called like the base file of a package. -/
def commonDocument : CanonicalDocument where
  info := [("title", .string "Common")]
  paths := [("/common", .mapping [("get", .mapping [("operationId", .string "common")])])]

/-- **An example has the name of the base file** where package and operation are called like it. -/
theorem not_nodup_paths_commonDocument :
    pathsOf commonDocument = some ["pyproject.toml", "README.md", "examples/common.py",
        "examples/models.py", "examples/client.py", "examples/__init__.py", "examples/common.py"]
      ∧ ¬ ∀ d spec g project, extract d = .ok spec → library spec g = .ok project →
        (project.files.map (·.path)).Nodup := by
  have hpaths : pathsOf commonDocument = some ["pyproject.toml", "README.md", "examples/common.py",
      "examples/models.py", "examples/client.py", "examples/__init__.py", "examples/common.py"] := by
    decide +kernel
  refine ⟨hpaths, fun h => ?_⟩
  obtain ⟨spec, hspec⟩ := except_exists_ok (x := extract commonDocument) (by decide +kernel)
  obtain ⟨project, hproject⟩ := except_exists_ok
    (x := (extract commonDocument).toOption.elim (.error .unnamedModel) (library · examplesGeneration))
    (by decide +kernel)
  rw [hspec] at hproject
  have hnodup := h _ _ _ _ hspec hproject
  simp only [pathsOf, hspec, Except.toOption, Option.bind_some] at hpaths
  simp only [Except.toOption, Option.elim_some] at hproject
  rw [hproject] at hpaths
  simp only [Option.map_some, Option.some.injEq] at hpaths
  rw [hpaths] at hnodup
  exact absurd hnodup (by decide)

end ApiClientGen.Client
