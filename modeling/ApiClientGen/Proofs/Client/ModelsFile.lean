/-
The file with the models, from top to bottom.

The imports come first, then the classes, and behind them the lines of the aliases, which are
evaluated when the file is loaded.  So such a line can use all that is imported, every class, and
the aliases on the lines before it.  It does not use anything else, but for one case: an alias
that leads back to itself cannot stand behind all that it needs.  The interface can have such
aliases, and then the file uses a name that it does not know yet.
-/
import ApiClientGen.Client.Library
import ApiClientGen.Code.Render
import ApiClientGen.Proofs.Client.AliasOrder
import ApiClientGen.Proofs.Client.Annotations
import ApiClientGen.Proofs.Extraction.SchemaTable

namespace ApiClientGen.Code

/-! ### Members by their order -/

/-- Members are compared by their orders, of which one is always the greater. -/
theorem trans_total_order :
    (∀ a b c : Int × String, decide (b.1 ≤ a.1) = true → decide (c.1 ≤ b.1) = true →
        decide (c.1 ≤ a.1) = true)
      ∧ ∀ a b : Int × String, (decide (b.1 ≤ a.1) || decide (a.1 ≤ b.1)) = true := by
  constructor
  · intro a b c hab hbc
    simp only [decide_eq_true_eq] at hab hbc ⊢
    omega
  · intro a b
    simp only [Bool.or_eq_true, decide_eq_true_eq]
    omega

/-- Of two lists that are one, each split at a member, what comes before it is the same. -/
theorem eq_before_of_order {a : Int × String} {first later before after : List (Int × String)}
    (hothers : later ++ first = before ++ after) (hlater : ∀ b ∈ later, a.1 < b.1)
    (hfirst : ∀ b ∈ first, b.1 ≤ a.1) (hbefore : ∀ b ∈ before, a.1 < b.1)
    (hafter : ∀ b ∈ after, b.1 ≤ a.1) : later = before := by
  have hkept : ∀ {l : List (Int × String)}, (∀ b ∈ l, a.1 < b.1) →
      l.filter (fun b => decide (a.1 < b.1)) = l := fun h =>
    List.filter_eq_self.mpr fun b hb => decide_eq_true (h b hb)
  have hdropped : ∀ {l : List (Int × String)}, (∀ b ∈ l, b.1 ≤ a.1) →
      l.filter (fun b => decide (a.1 < b.1)) = [] := fun h =>
    List.filter_eq_nil_iff.mpr fun b hb => by
      have hle := h b hb
      simp only [decide_eq_true_eq]
      omega
  have hfilter := congrArg (List.filter fun b => decide (a.1 < b.1)) hothers
  rwa [List.filter_append, List.filter_append, hkept hlater, hdropped hfirst, hkept hbefore,
    hdropped hafter, List.append_nil, List.append_nil] at hfilter

/--
Members that are in order already, behind others that are written before them: the two change
places.
-/
theorem byOrder_append {first later : List (Int × String)}
    (hsorted : (later ++ first).Pairwise fun a b => b.1 ≤ a.1)
    (hbehind : ∀ a ∈ first, ∀ b ∈ later, a.1 < b.1) :
    byOrder (first ++ later) = (later ++ first).map Prod.snd := by
  obtain ⟨htrans, htotal⟩ := trans_total_order
  have hsort : (first ++ later).mergeSort (fun a b => b.1 ≤ a.1) = later ++ first := by
    induction first with
    | nil =>
        rw [List.append_nil] at hsorted
        rw [List.nil_append, List.append_nil]
        exact List.mergeSort_of_pairwise (hsorted.imp fun h => by simpa using h)
    | cons a first ih =>
        obtain ⟨hlater, hown, -⟩ := List.pairwise_append.mp hsorted
        have hrest := ih
          (hsorted.sublist ((List.Sublist.refl _).append (List.sublist_cons_self a first)))
          fun c hc => hbehind c (List.mem_cons_of_mem _ hc)
        obtain ⟨before, after, hall, hothers, hbefore⟩ :=
          List.mergeSort_cons htrans htotal a (first ++ later)
        rw [hrest] at hothers
        have hsorted := List.pairwise_mergeSort htrans htotal (a :: (first ++ later))
        rw [hall] at hsorted
        obtain ⟨-, hafter, -⟩ := List.pairwise_append.mp hsorted
        -- What comes before `a` is what is written before it, and nothing else.
        obtain rfl : later = before := eq_before_of_order hothers (hbehind a (by simp))
          (List.pairwise_cons.mp hown).1 (fun b hb => by simpa using hbefore b hb)
          fun b hb => of_decide_eq_true ((List.pairwise_cons.mp hafter).1 b hb)
        rw [List.cons_append, hall, List.append_cancel_left hothers]
  rw [byOrder, hsort]

theorem mem_imports_foldl {line : String} (lines : List String) {f : CodeFile}
    (h : line ∈ f.imports) : line ∈ (lines.foldl CodeFile.addImport f).imports := by
  induction lines generalizing f with
  | nil => exact h
  | cons l lines ih =>
      refine ih ?_
      unfold CodeFile.addImport
      split
      · exact h
      · exact List.mem_append_left _ h

/-- Adding imports changes nothing else. -/
theorem exists_imports_foldl (lines : List String) (f : CodeFile) :
    ∃ imports, lines.foldl CodeFile.addImport f = { f with imports } := by
  induction lines generalizing f with
  | nil => exact ⟨f.imports, rfl⟩
  | cons l lines ih =>
      obtain ⟨imports, heq⟩ := ih (f.addImport l)
      refine ⟨imports, ?_⟩
      rw [List.foldl_cons, heq, CodeFile.addImport]
      split <;> rfl

/-- The names that a line of imports makes known. -/
def importedNames (line : String) : List String :=
  match Text.pieces ' ' line with
  | ["import", _, "as", name] => [name]
  | ["import", name] => [name]
  | "from" :: _ :: "import" :: names =>
    names.map fun name => String.ofList (name.toList.filter (· != ','))
  | _ => []

end ApiClientGen.Code

namespace ApiClientGen.Client

open ApiClientGen.Canonical ApiClientGen.Code ApiClientGen.Extraction ApiClientGen.Settings
  ApiClientGen.Spec ApiClientGen.Text

variable {spec : ApiSpec} {g : Generation} {bases : List BaseClass} {name : String}

/-! ### The parts of the file -/

/-- A class for a schema has its name, and the order that classes have. -/
theorem schemaClass?_eq_some {bases : List String} {s : Schema} {c : ClassDef}
    (h : schemaClass? spec g bases s = some c) :
    c.name = s.name ∧ c.order = 0 := by
  unfold schemaClass? at h
  split at h <;> cases h <;> exact ⟨rfl, rfl⟩

/-- The blocks behind the lines of the aliases. -/
def lastBlocks (spec : ApiSpec) : List Block :=
  (if (recordNames spec).isEmpty then []
    else [{
      code := "# Разрешение ссылок между моделями\n"
        ++ String.intercalate "\n" ((recordNames spec).map (· ++ ".model_rebuild()"))
      order := -100 }])
    ++ [{ code := exportsLine ((Fields.keys spec.schemas).mergeSort (· ≤ ·)), order := -200 }]

theorem blocks_modelsFile (spec : ApiSpec) (g : Generation) (bases : List BaseClass) :
    (modelsFile spec g bases).blocks
      = (sortedAliases (aliases spec)).map (fun a => { code := aliasLine a, order := -10 })
        ++ lastBlocks spec :=
  List.append_assoc _ _ _

theorem mem_imports_modelsFile {line : String} (h : line ∈ modelImports) :
    line ∈ (modelsFile spec g bases).imports :=
  mem_imports_foldl _ h

theorem pairwise_lastBlocks (spec : ApiSpec) :
    (lastBlocks spec).Pairwise (fun a b => b.order ≤ a.order)
      ∧ ∀ b ∈ lastBlocks spec, b.order ≤ -100 := by
  unfold lastBlocks
  split <;> simp

theorem order_classes_modelsFile {c : ClassDef} (hc : c ∈ (modelsFile spec g bases).classes) :
    c.order = 0 := by
  obtain ⟨e, -, hclass⟩ := List.mem_filterMap.mp hc
  exact (schemaClass?_eq_some hclass).2

/-- The blocks of the models file are in order, and come behind the classes. -/
theorem pairwise_blocks_modelsFile (spec : ApiSpec) (g : Generation) (bases : List BaseClass) :
    (modelsFile spec g bases).blocks.Pairwise (fun a b => b.order ≤ a.order)
      ∧ ∀ b ∈ (modelsFile spec g bases).blocks, b.order < 0 := by
  obtain ⟨hlast, hbound⟩ := pairwise_lastBlocks spec
  rw [blocks_modelsFile]
  refine ⟨List.pairwise_append.mpr ⟨?_, hlast, fun a ha b hb => ?_⟩, fun b hb => ?_⟩
  · exact List.pairwise_map.mpr (List.pairwise_of_forall fun _ _ => Int.le_refl _)
  · obtain ⟨_, -, rfl⟩ := List.mem_map.mp ha
    have hle := hbound b hb
    show b.order ≤ -10
    omega
  · rcases List.mem_append.mp hb with hb | hb
    · obtain ⟨_, -, rfl⟩ := List.mem_map.mp hb
      show (-10 : Int) < 0
      omega
    · have hle := hbound b hb
      omega

/-- The classes of the models file are written first, then its blocks. -/
theorem byOrder_modelsFile (spec : ApiSpec) (g : Generation) (bases : List BaseClass) :
    byOrder (blockMembers (modelsFile spec g bases).blocks
        ++ (modelsFile spec g bases).classes.map fun c => (c.order, c.render))
      = (modelsFile spec g bases).classes.map ClassDef.render
        ++ (modelsFile spec g bases).blocks.map Block.render := by
  obtain ⟨hblocks, hnegative⟩ := pairwise_blocks_modelsFile spec g bases
  have hbehind : ∀ d ∈ (modelsFile spec g bases).blocks,
      ∀ c ∈ (modelsFile spec g bases).classes, d.order < c.order := by
    intro d hd c hc
    rw [order_classes_modelsFile hc]
    exact hnegative d hd
  have hclasses : (modelsFile spec g bases).classes.Pairwise (fun a b => b.order ≤ a.order) := by
    refine List.Pairwise.imp_of_mem (fun {c d} hc hd _ => ?_)
      (List.pairwise_of_forall (R := fun _ _ => True) fun _ _ => trivial)
    rw [order_classes_modelsFile hc, order_classes_modelsFile hd]
  rw [byOrder_append]
  · rw [List.map_append, List.map_map, blockMembers, List.map_map]
    rfl
  · refine List.pairwise_append.mpr ⟨List.pairwise_map.mpr hclasses, List.pairwise_map.mpr hblocks,
      fun a ha b hb => ?_⟩
    obtain ⟨c, hc, rfl⟩ := List.mem_map.mp ha
    obtain ⟨d, hd, rfl⟩ := List.mem_map.mp hb
    exact Int.le_of_lt (hbehind d hd c hc)
  · intro a ha b hb
    obtain ⟨d, hd, rfl⟩ := List.mem_map.mp ha
    obtain ⟨c, hc, rfl⟩ := List.mem_map.mp hb
    exact hbehind d hd c hc

/-- **The parts of the models file**: imports, classes, aliases, and what stands behind them. -/
theorem render_modelsFile (spec : ApiSpec) (g : Generation) (bases : List BaseClass) :
    (modelsFile spec g bases).render
      = expandTabs (String.intercalate "\n\n\n"
          (String.intercalate "\n" (modelsFile spec g bases).imports
            :: ((modelsFile spec g bases).classes.map ClassDef.render
              ++ ((sortedAliases (aliases spec)).map (fun a => expandTabs (aliasLine a))
                ++ (lastBlocks spec).map Block.render)))
          ++ "\n") := by
  have himports : (modelsFile spec g bases).imports.isEmpty = false := by
    rw [List.isEmpty_eq_false_iff]
    exact List.ne_nil_of_mem (mem_imports_modelsFile (show "" ∈ modelImports by decide))
  have hfunctions : (modelsFile spec g bases).functions = [] := by
    obtain ⟨imports, heq⟩ := exists_imports_foldl (bases.filterMap (·.importLine))
      { path := g.packageName ++ "/models.py", imports := modelImports }
    exact congrArg CodeFile.functions heq
  unfold CodeFile.render
  rw [hfunctions, himports]
  show expandTabs (String.intercalate "\n\n\n" ([_] ++ byOrder (blockMembers _ ++ [] ++ _)) ++ "\n") = _
  rw [List.append_nil, byOrder_modelsFile, blocks_modelsFile, List.map_append, List.map_map]
  rfl

/-! ### What the lines of aliases use -/

/-- The names that annotations use are imported. -/
theorem imported_of_mem_typingNames (h : name ∈ typingNames) :
    ∃ line ∈ (modelsFile spec g bases).imports, name ∈ importedNames line := by
  have hall : ∀ name ∈ typingNames, ∃ line ∈ modelImports, name ∈ importedNames line := by
    decide +kernel
  obtain ⟨line, hline, hname⟩ := hall name h
  exact ⟨line, mem_imports_modelsFile hline, hname⟩

/-- An alias of an interface is one of its schemas. -/
theorem mem_aliases {a : Alias} (h : a ∈ aliases spec) :
    ∃ e ∈ spec.schemas, e.2.name = a.name ∧ a.type ∈ e.2.types := by
  obtain ⟨e, he, heq⟩ := List.mem_filterMap.mp h
  refine ⟨e, he, ?_⟩
  split at heq
  · rename_i type hshape
    cases heq
    exact ⟨rfl, by simp [Schema.types, hshape]⟩
  · cases heq

/-- Aliases have names of their own if schemas have. -/
theorem nodup_names_aliases (hnames : ∀ e ∈ spec.schemas, e.2.name = e.1)
    (hkeys : (Fields.keys spec.schemas).Nodup) : ((aliases spec).map Alias.name).Nodup := by
  have hsublist : ((aliases spec).map Alias.name).Sublist (spec.schemas.map fun e => e.2.name) := by
    unfold aliases
    generalize spec.schemas = schemas
    induction schemas with
    | nil => exact .slnil
    | cons e schemas ih =>
        rw [List.filterMap_cons]
        split
        · exact .cons _ ih
        · rename_i a ha
          split at ha
          · cases ha
            exact .cons_cons _ ih
          · cases ha
  have heq : (spec.schemas.map fun e => e.2.name) = Fields.keys spec.schemas :=
    List.map_congr_left hnames
  exact (heq ▸ hsublist).nodup hkeys

/-- Every schema has a class in the file, or is an alias. -/
theorem exists_class_or_alias (g : Generation) (bases : List BaseClass) {e : String × Schema}
    (he : e ∈ spec.schemas) :
    (∃ c ∈ (modelsFile spec g bases).classes, c.name = e.2.name)
      ∨ ∃ a ∈ aliases spec, a.name = e.2.name := by
  cases hclass : schemaClass? spec g (bases.map (·.name)) e.2 with
  | some c =>
      exact Or.inl ⟨c, List.mem_filterMap.mpr ⟨e, he, hclass⟩, (schemaClass?_eq_some hclass).1⟩
  | none =>
      match hshape : e.2.shape with
      | .alias type =>
          exact Or.inr ⟨⟨e.2.name, type, e.2.description⟩,
            List.mem_filterMap.mpr ⟨e, he, by simp only [hshape]⟩, rfl⟩
      | .enumeration values => simp [schemaClass?, hshape] at hclass
      | .record fields additional => simp [schemaClass?, hshape] at hclass

/--
**The names that are known where the line of an alias is evaluated**, behind the lines of others.
-/
def knownNames (file : CodeFile) (before : List Alias) : List String :=
  builtinNames ++ file.imports.flatMap importedNames ++ file.classes.map ClassDef.name
    ++ before.map Alias.name

/-- The line of an alias uses what is known, and aliases that lead back to it. -/
theorem mem_knownNames_or_leadsTo (hclosed : spec.Closed) (hkeys : (Fields.keys spec.schemas).Nodup)
    (hshape : ∀ key ∈ Fields.keys spec.schemas, IsModelName key) {before after : List Alias}
    {a : Alias} (hsplit : sortedAliases (aliases spec) = before ++ a :: after)
    (hname : name ∈ namesIn (typeText "" a.type)) :
    name ∈ knownNames (modelsFile spec g bases) before
      ∨ ∃ b ∈ aliases spec, b.name = name ∧ LeadsTo (aliases spec) b a := by
  have hnames := nodup_names_aliases hclosed.names hkeys
  have ha : a ∈ aliases spec :=
    mem_of_mem_sortedAliases hnames (by rw [hsplit]; simp)
  obtain ⟨e, he, -, htype⟩ := mem_aliases ha
  have htypeClosed : a.type.Closed (Fields.keys spec.schemas) :=
    hclosed.types _ (List.mem_append_left _ (List.mem_flatMap.mpr ⟨e, he, htype⟩))
  simp only [knownNames, List.mem_append, List.mem_flatMap, List.mem_map]
  rcases mem_namesIn_typeText hshape a.type htypeClosed hname
    with hbuiltin | htyping | ⟨hmodel, hkey⟩
  · exact Or.inl (Or.inl (Or.inl (Or.inl hbuiltin)))
  · exact Or.inl (Or.inl (Or.inl (Or.inr (imported_of_mem_typingNames htyping))))
  · obtain ⟨e, he, rfl⟩ := List.mem_map.mp hkey
    rcases exists_class_or_alias g bases he with ⟨c, hc, hcname⟩ | ⟨b, hb, hbname⟩
    · exact Or.inl (Or.inl (Or.inr ⟨c, hc, hcname.trans (hclosed.names e he)⟩))
    · have hbkey : b.name = e.1 := hbname.trans (hclosed.names e he)
      rcases mem_before_or_leadsTo hnames hsplit
          ((refersTo_iff hnames).mpr ⟨hb, hbkey ▸ hmodel⟩) with hbefore | hleads
      · exact Or.inl (Or.inr ⟨b, hbefore, hbkey⟩)
      · exact Or.inr ⟨b, hb, hbkey, hleads⟩

/-! ### Every models file -/

/-- The models of a client can all be written, and their file is one of its files. -/
theorem library_ok {project : Project} (h : library spec g = .ok project) :
    (∀ e ∈ spec.schemas, classFault? e.2 = none)
      ∧ ∃ bases, modelsFile spec g bases ∈ project.files := by
  unfold library at h
  obtain ⟨bases, -, h⟩ := except_bind_ok.mp h
  split at h
  · dsimp only at h
    split at h
    · cases h
    split at h
    · cases h
    · rename_i hwritten
      cases h
      exact ⟨List.findSome?_eq_none_iff.mp (Option.eq_none_iff_forall_ne_some.mpr hwritten), bases,
        by simp⟩
  · cases h

/-- The models file is one of the files of a client. -/
theorem mem_files_of_library {project : Project} (h : library spec g = .ok project) :
    ∃ bases, modelsFile spec g bases ∈ project.files := (library_ok h).2

theorem path_modelsFile (spec : ApiSpec) (g : Generation) (bases : List BaseClass) :
    (modelsFile spec g bases).path = g.packageName ++ "/models.py" := by
  obtain ⟨imports, heq⟩ := exists_imports_foldl (bases.filterMap (·.importLine))
    { path := g.packageName ++ "/models.py", imports := modelImports }
  exact congrArg CodeFile.path heq

/--
**Aliases use what is known where they are evaluated**: in the models file of every client, the
imports come first, then the classes, then the lines of the aliases; and a line mentions only
names that are imported, are built in, or belong to a class or to an alias on a line before it.
The one exception are aliases that lead back to the one that mentions them.
-/
theorem aliasLines_use_knownNames {d : CanonicalDocument} {project : Project}
    (hspec : extract d = .ok spec) (hproject : library spec g = .ok project) :
    ∃ file ∈ project.files, file.path = g.packageName ++ "/models.py"
      ∧ (∃ last, file.render
          = expandTabs (String.intercalate "\n\n\n"
              (String.intercalate "\n" file.imports
                :: (file.classes.map ClassDef.render
                  ++ ((sortedAliases (aliases spec)).map (fun a => expandTabs (aliasLine a)) ++ last)))
              ++ "\n"))
      ∧ ∀ before a after, sortedAliases (aliases spec) = before ++ a :: after →
          ∀ name ∈ namesIn (typeText "" a.type), name ∈ knownNames file before
            ∨ ∃ b ∈ aliases spec, b.name = name ∧ LeadsTo (aliases spec) b a := by
  obtain ⟨hkeys, hshape⟩ := keys_of_extract hspec
  obtain ⟨s, parts, p, -, hmodels, hrun⟩ := extract_ok hspec
  have hclosed := Scope.interface_closed hmodels hrun
  obtain ⟨bases, hfile⟩ := mem_files_of_library hproject
  exact ⟨modelsFile spec g bases, hfile, path_modelsFile spec g bases,
    ⟨_, render_modelsFile spec g bases⟩, fun before a after hsplit name hname =>
      mem_knownNames_or_leadsTo hclosed hkeys hshape hsplit hname⟩

/-- Tags of pets, listed before the tag that they refer to. -/
def tagDocument : CanonicalDocument where
  info := [("title", .string "Tags"), ("version", .string "1")]
  components := [("schemas", .mapping [
    ("Tags", .mapping [("type", .string "array"),
      ("items", .mapping [("$ref", .string "#/components/schemas/Tag")])]),
    ("Pet", .mapping [("properties", .mapping
      [("tags", .mapping [("$ref", .string "#/components/schemas/Tags")])])]),
    ("Pets", .mapping [("type", .string "object"),
      ("additionalProperties", .mapping [("$ref", .string "#/components/schemas/Pet")])]),
    ("Tag", .mapping [("type", .string "string"), ("nullable", .bool true)])])]

/-- A tree that consists of nothing but its branches. -/
def treeDocument : CanonicalDocument where
  info := [("title", .string "Trees"), ("version", .string "1")]
  components := [("schemas", .mapping [("Tree", .mapping [("type", .string "array"),
    ("items", .mapping [("$ref", .string "#/components/schemas/Tree")])])])]

/-- A client for pets, in the directory that the program runs in. -/
def petsGeneration : Generation := { name := "Pets", destination := ⟨"", []⟩ }

/-- The lines of the aliases in the models file for a document. -/
def aliasLinesOf (d : CanonicalDocument) : Option (List String) :=
  (extract d).toOption.map fun spec => (sortedAliases (aliases spec)).map aliasLine

theorem aliasLines_tagDocument :
    aliasLinesOf tagDocument = some ["Tag = Optional[str]", "Tags = List[Tag]", "Pets = Dict[str, Pet]"]
      ∧ ∃ spec project, extract tagDocument = .ok spec
        ∧ library spec petsGeneration = .ok project
        ∧ ∃ file ∈ project.files, file.path = "pets/models.py"
          ∧ ∀ before a after, sortedAliases (aliases spec) = before ++ a :: after →
              ∀ name ∈ namesIn (typeText "" a.type), name ∈ knownNames file before
                ∨ ∃ b ∈ aliases spec, b.name = name ∧ LeadsTo (aliases spec) b a := by
  obtain ⟨project, hproject⟩ := except_exists_ok
    (x := (extract tagDocument).toOption.elim (.error .unnamedModel) (library · petsGeneration))
    (by decide +kernel)
  obtain ⟨spec, hspec⟩ := except_exists_ok (x := extract tagDocument) (by decide +kernel)
  rw [hspec] at hproject
  obtain ⟨file, hfile, hpath, -, huse⟩ := aliasLines_use_knownNames hspec hproject
  have hpackage : petsGeneration.packageName = "pets" := by decide +kernel
  rw [hpackage] at hpath
  exact ⟨by decide +kernel, spec, project, hspec, hproject, file, hfile, hpath, huse⟩

/-- **The file uses a name that it does not know** where an alias refers to itself. -/
theorem unknownName_treeDocument :
    aliasLinesOf treeDocument = some ["Tree = List[Tree]"]
      ∧ ¬ ∀ d spec g project, extract d = .ok spec → library spec g = .ok project →
        ∃ file ∈ project.files, file.path = g.packageName ++ "/models.py"
          ∧ ∀ before a after, sortedAliases (aliases spec) = before ++ a :: after →
              ∀ name ∈ namesIn (typeText "" a.type), name ∈ knownNames file before := by
  refine ⟨by decide +kernel, fun h => ?_⟩
  obtain ⟨project, hproject⟩ := except_exists_ok
    (x := (extract treeDocument).toOption.elim (.error .unnamedModel) (library · petsGeneration))
    (by decide +kernel)
  obtain ⟨spec, hspec⟩ := except_exists_ok (x := extract treeDocument) (by decide +kernel)
  have hlines : (extract treeDocument).toOption.map (fun spec =>
      (sortedAliases (aliases spec)).map fun a => namesIn (typeText "" a.type))
        = some [["List", "Tree"]] := by decide +kernel
  have hknown : ((extract treeDocument).toOption.bind fun spec =>
      (library spec petsGeneration).toOption.map fun project =>
        project.files.all fun file => file.path != "pets/models.py"
          || !(knownNames file []).contains "Tree") = some true := by decide +kernel
  rw [hspec] at hproject hlines hknown
  simp only [Except.toOption, Option.map_some, Option.some.injEq, List.map_eq_singleton_iff]
    at hlines
  obtain ⟨a, hsorted, hnames⟩ := hlines
  obtain ⟨file, hfile, hpath, huse⟩ := h _ _ _ _ hspec hproject
  have htree := huse [] a [] hsorted "Tree" (by simp [hnames])
  have hpackage : petsGeneration.packageName = "pets" := by decide +kernel
  rw [hpackage] at hpath
  simp only [Except.toOption, Option.elim_some] at hproject
  simp only [Except.toOption, Option.bind_some, hproject, Option.map_some, Option.some.injEq,
    List.all_eq_true] at hknown
  have hmissing := hknown file hfile
  rw [hpath] at hmissing
  simp [htree] at hmissing

end ApiClientGen.Client
