/-
References to schemas by their text and by their pointer.

Which model stands for a reference to a schema is decided by the text of the reference: what
follows the way to the schemas is the name, once its marks are read.  What stands behind the
reference is found by its pointer.  The two agree on references that are written plainly.  They
do not agree on codes behind percent signs, which are read in pointers alone: a reference that
writes the blank in a name as a code leads to its schema, and is no reference to a known one.
-/
import ApiClientGen.Proofs.Canonical.FixedPoint
import ApiClientGen.Proofs.Extraction.SchemaTable
import ApiClientGen.Proofs.Reference.Addresses
import ApiClientGen.Proofs.Reference.Linking

namespace ApiClientGen.Reference

open ApiClientGen.Text

/-- The way to a schema, cut at its slashes. -/
theorem splitOn_schemas {rest : List Char} (h : '/' ∉ rest) :
    splitOn '/' ("components/schemas/".toList ++ rest)
      = ["components".toList, "schemas".toList, rest] := by
  have hlist : "components/schemas/".toList ++ rest
      = "components".toList ++ '/' :: ("schemas".toList ++ '/' :: rest) := rfl
  rw [hlist, splitOn_append_cons (by decide), splitOn_append_cons (by decide), splitOn_of_notMem h]

/-- A text that is cut into the way to a schema begins with that way. -/
theorem eq_append_of_splitOn_schemas {s last : List Char}
    (h : splitOn '/' s = ["components".toList, "schemas".toList, last]) :
    s = "components/schemas/".toList ++ last ∧ '/' ∉ last := by
  obtain ⟨rest, rfl, hrest⟩ := eq_append_of_splitOn h (by simp)
  obtain ⟨rest, rfl, hlast⟩ := eq_append_of_splitOn hrest (by simp)
  obtain ⟨rfl, hslash⟩ := notMem_of_splitOn hlast
  exact ⟨rfl, hslash⟩

end ApiClientGen.Reference

namespace ApiClientGen.Extraction

open ApiClientGen.Canonical ApiClientGen.Document ApiClientGen.Reference ApiClientGen.Text

namespace Scope

/-- **Text and pointer name the same schema** if the reference is written plainly. -/
theorem schemaName?_eq_some_iff {pointer name : String} (h : IsPlainPointer pointer) :
    schemaName? ("#" ++ pointer) = some name
      ↔ pointerParts pointer = ["components", "schemas", name] := by
  obtain ⟨first, rest, hlist, -⟩ := h.slash
  rw [h.parts, hlist, List.tail_cons]
  constructor
  · intro hname
    obtain ⟨token, htoken, hname⟩ := Option.bind_eq_some_iff.mp hname
    have htext := textAfter?_eq_some.mp htoken
    split at hname
    · cases hname
    · rename_i hslash
      cases hname
      have hsuffix : first :: rest = "components/schemas/".toList ++ token.toList := by
        have hchars := congrArg String.toList htext
        rw [String.toList_append, String.toList_append, hlist] at hchars
        exact (List.cons.inj (List.cons.inj hchars).2).2
      rw [hsuffix, splitOn_schemas (by simpa using hslash)]
      simp [unescaped_eq_self]
  · intro hparts
    obtain ⟨a, more, hpieces, ha, hmore⟩ := List.map_eq_cons_iff.mp hparts
    obtain ⟨b, more, rfl, hb, hmore⟩ := List.map_eq_cons_iff.mp hmore
    obtain ⟨last, more, rfl, hlast, hmore⟩ := List.map_eq_cons_iff.mp hmore
    obtain rfl := List.map_eq_nil_iff.mp hmore
    have hread : ∀ {part : List Char} {text : String}, String.ofList (unescaped part) = text →
        unescaped part = text.toList := by
      rintro part text rfl
      simp
    obtain rfl := eq_of_unescaped (hread ha) (by decide) (by decide)
    obtain rfl := eq_of_unescaped (hread hb) (by decide) (by decide)
    obtain ⟨hsuffix, hslash⟩ := eq_append_of_splitOn_schemas hpieces
    have htext : "#" ++ pointer = schemaRefStart ++ String.ofList last := by
      apply String.toList_injective
      rw [String.toList_append, String.toList_append, hlist, hsuffix]
      simp [schemaRefStart]
    rw [schemaName?, textAfter?_eq_some.mpr htext]
    simpa [hslash] using hlast

/-- The model for a reference that is written plainly is that of the schema its pointer leads to. -/
theorem modelOf?_eq_some_iff {s : Scope} {n : Node} {pointer model : String}
    (href : n.ref? = some ("#" ++ pointer)) (h : IsPlainPointer pointer) :
    s.modelOf? n = .ok (some model)
      ↔ ∃ name, pointerParts pointer = ["components", "schemas", name]
        ∧ Fields.get? s.models name = some model := by
  rw [modelOf?, href]
  dsimp only
  cases hname : schemaName? ("#" ++ pointer) with
  | none =>
      constructor
      · intro hmodel
        cases hmodel
      · rintro ⟨name, hparts, -⟩
        rw [(schemaName?_eq_some_iff h).mpr hparts] at hname
        cases hname
  | some name =>
      have hparts := (schemaName?_eq_some_iff h).mp hname
      dsimp only
      constructor
      · intro hmodel
        refine ⟨name, hparts, ?_⟩
        split at hmodel
        · rename_i found hfound
          cases hmodel
          exact hfound
        · cases hmodel
      · rintro ⟨other, hother, hmodel⟩
        rw [hparts] at hother
        cases hother
        rw [hmodel]

end Scope

/-! ### The way through the document -/

/-- One step of a pointer, through a node that is not the one whose reference is followed. -/
theorem walk_field {f : Node → Except Fault Node} {ref pointer key : String} {self : Place}
    {n here next : Node} {rest : List String} (hhere : n.place ≠ self → f n = .ok here)
    (hself : n.place = self → n = here) (hnext : Fields.get? here.fields key = some next) :
    Linked.walk f ref pointer self n (key :: rest) = Linked.walk f ref pointer self next rest := by
  have hstep : (if n.place = self then Except.ok n else f n) = Except.ok here := by
    split
    · rename_i hplace
      rw [hself hplace]
    · rename_i hplace
      exact hhere hplace
  rw [Linked.walk_cons, hstep]
  show (Linked.stepTo ref pointer key here >>= fun next =>
    Linked.walk f ref pointer self next rest) = _
  rw [Linked.stepTo, part?_of_get?_fields hnext]
  rfl

variable {d : CanonicalDocument} {linked : Linked} {s : Scope} {parts : Scope.Parts}

/-- A canonical form, written anew, is no reference. -/
theorem textAt?_ofEntries_fields (hd : d.IsSorted) :
    Fields.textAt? (Fields.ofEntries (Linked.fieldsWithoutBytes d.fields)) refKey = none := by
  have hkey : refKey ∉ Fields.keys d.fields :=
    CanonicalDocument.notMem_keys_fields hd (by decide) (by decide)
  rw [Fields.textAt?, Fields.get?_eq_none fun hmem => hkey ?_]
  · rfl
  · rwa [Fields.mem_keys_ofEntries, Linked.keys_fieldsWithoutBytes] at hmem

/-- The root of a canonical form is no reference. -/
theorem ref?_root (hd : d.IsSorted) (hlinked : Linked.ofFields d.fields = .ok linked) :
    (Node.root linked.document).ref? = none := by
  obtain ⟨rfl, -⟩ := Linked.ofFields_eq_ok.mp hlinked
  exact textAt?_ofEntries_fields hd

/-- The models of a document are named after its schemas. -/
theorem models_of_prepare (h : prepare {} d = .ok (s, parts)) :
    s.models = modelNames (Fields.keys parts.schemas) := by
  obtain ⟨found, -, h⟩ := except_bind_ok.mp h
  obtain ⟨found, -, h⟩ := except_bind_ok.mp h
  cases except_pure_ok.mp h
  rfl

/-- What stands behind a node with a field, when that field is seen. -/
theorem exists_behind_of_fieldsOf {n : Option Node} {fields : Fields Node} {key : String} {m : Node}
    (h : s.fieldsOf n = .ok fields) (hm : Fields.get? fields key = some m) :
    ∃ node target, n = some node ∧ s.follow node = .ok target
      ∧ Fields.get? target.fields key = some m := by
  rcases Scope.fieldsOf_ok h with rfl | ⟨node, target, hn, htarget, rfl⟩
  · cases hm
  · exact ⟨node, target, hn, htarget, hm⟩

/--
**The way to a schema leads to the schema**, from every reference that does not stand in the
place of all components or of all schemas.
-/
theorem walk_component (hd : d.IsSorted) (hlinked : Linked.ofFields d.fields = .ok linked)
    (hprepare : prepare {} d = .ok (s, parts)) {ref pointer name : String} {self : Place}
    (hcomponents : ∀ n, Fields.get? parts.document "components" = some n → n.place ≠ self)
    (hschemas : ∀ n, Fields.get? parts.components "schemas" = some n → n.place ≠ self)
    {node : Node} (hnode : Fields.get? parts.schemas name = some node)
    {length : Nat} (hlength : refCount linked.document < length) :
    Linked.walk (linked.followWithin length) ref pointer self (.root linked.document)
      ["components", "schemas", name] = .ok node := by
  obtain ⟨found, hfound, hprepare⟩ := except_bind_ok.mp hprepare
  rw [hlinked] at hfound
  cases hfound
  obtain ⟨found, hparts, hprepare⟩ := except_bind_ok.mp hprepare
  cases hprepare
  obtain ⟨info, -, hparts⟩ := except_bind_ok.mp hparts
  obtain ⟨components, hcomponentsOf, hparts⟩ := except_bind_ok.mp hparts
  obtain ⟨schemas, hschemasOf, hparts⟩ := except_bind_ok.mp hparts
  cases hparts
  -- What the scope follows is followed as far by every greater length.
  have hfollow : ∀ {n target}, (Scope.ofLinked linked
      ((Bounds.ofDocument linked.document).widened {})).follow n = .ok target →
        linked.followWithin length n = .ok target := by
    intro n target h
    have hbound : linked.followWithin (refCount linked.document + 1) n = .ok target :=
      except_mapError_ok.mp h
    obtain ⟨more, rfl⟩ := Nat.exists_eq_add_of_le (Nat.succ_le_of_lt hlength)
    rw [Linked.followWithin_enough (Nat.lt_succ_self _)]
    exact hbound
  obtain ⟨schemasNode, schemasTarget, hschemasNode, hschemasFollow, hname⟩ :=
    exists_behind_of_fieldsOf hschemasOf hnode
  obtain ⟨componentsNode, componentsTarget, hcomponentsNode, hcomponentsFollow, hschemasField⟩ :=
    exists_behind_of_fieldsOf hcomponentsOf hschemasNode
  rw [walk_field (fun _ => Linked.followWithin_of_none (ref?_root hd hlinked) length)
      (fun _ => rfl) hcomponentsNode,
    walk_field (fun _ => hfollow hcomponentsFollow)
      (fun h => absurd h (hcomponents _ hcomponentsNode)) hschemasField,
    walk_field (fun _ => hfollow hschemasFollow)
      (fun h => absurd h (hschemas _ hschemasNode)) hname]
  rfl

/-- The places of all components and of all schemas. -/
def Scope.Parts.containers (parts : Scope.Parts) : List Place :=
  [Fields.get? parts.document "components", Fields.get? parts.components "schemas"].filterMap
    (Option.map Node.place)

/-- **Behind a plain reference to a schema stands what is behind the schema.** -/
theorem follow_component (hd : d.IsSorted) (hprepare : prepare {} d = .ok (s, parts))
    {n target : Node} {pointer model : String} (href : n.ref? = some ("#" ++ pointer))
    (hplain : IsPlainPointer pointer) (hplace : n.place ∉ parts.containers)
    (hmodel : s.modelOf? n = .ok (some model)) (htarget : s.follow n = .ok target) :
    ∃ name m, Fields.get? s.models name = some model ∧ Fields.get? parts.schemas name = some m
      ∧ s.follow m = .ok target := by
  obtain ⟨name, hparts, hname⟩ := (Scope.modelOf?_eq_some_iff href hplain).mp hmodel
  have hkey : name ∈ Fields.keys parts.schemas := by
    rw [← keys_modelNames (Fields.keys parts.schemas), ← models_of_prepare hprepare]
    exact Fields.mem_keys_of_get? hname
  obtain ⟨m, hm⟩ := Fields.exists_get?_of_mem_keys hkey
  refine ⟨name, m, hname, hm, ?_⟩
  have hother : ∀ {key : Option Node}, key ∈ [Fields.get? parts.document "components",
      Fields.get? parts.components "schemas"] → ∀ k, key = some k → k.place ≠ n.place :=
    fun hmem k hk heq => hplace (List.mem_filterMap.mpr ⟨_, hmem, by rw [hk, ← heq]; rfl⟩)
  obtain ⟨linked, hlinked, hrest⟩ := except_bind_ok.mp hprepare
  have hlinked := except_mapError_ok.mp hlinked
  have hfollow : ∀ k, s.follow k
      = (linked.followWithin (refCount linked.document + 1) k).mapError .reference := by
    obtain ⟨found, -, hrest⟩ := except_bind_ok.mp hrest
    cases hrest
    exact fun k => rfl
  have hwalk : Linked.walk (linked.followWithin (refCount linked.document + 1)) ("#" ++ pointer)
      pointer n.place (.root linked.document) ["components", "schemas", name] = .ok m :=
    walk_component hd hlinked hprepare (hother (by simp)) (hother (by simp)) hm (Nat.lt_succ_self _)
  -- With one reference more in the chain, the schema itself is followed as far as before.
  have hlonger : linked.followWithin (refCount linked.document + 1 + 1) n = .ok target := by
    rw [hfollow] at htarget
    exact (Linked.followWithin_enough (Nat.lt_succ_self _) 1 n).trans (except_mapError_ok.mp htarget)
  rw [Linked.followWithin_of_some href, Linked.target_fragment fun c hc hmark =>
    hplain.without c hc (List.mem_cons_of_mem _ hmark)] at hlonger
  obtain ⟨_, ⟨⟩, hlonger⟩ := except_bind_ok.mp hlonger
  obtain ⟨reached, hreached, hlonger⟩ := except_bind_ok.mp hlonger
  rw [hparts, hwalk] at hreached
  cases hreached
  split at hlonger
  · cases hlonger
  · rw [hfollow]
    exact except_mapError_ok.mpr hlonger

/-! ### Text and pointer -/

/-- **A reference that names the schema its pointer leads to**, and no other one. -/
structure NamesItsTarget (linked : Linked) (s : Scope) (parts : Scope.Parts) (n : Node)
    (pointer : String) : Prop where
  /-- The reference leads into its own document, with all that stands behind the hash sign. -/
  target : Linked.target ("#" ++ pointer) = .ok ⟨"", pointer⟩
  /-- If the pointer is read as the way to a schema, the model is that of the schema. -/
  model : ∀ name ∈ Fields.keys parts.schemas,
    pointerParts pointer = ["components", "schemas", name] →
      ∃ model, Fields.get? s.models name = some model ∧ s.modelOf? n = .ok (some model)
  /-- If there is a model, it is that of the schema which the pointer leads to. -/
  schema : ∀ model, s.modelOf? n = .ok (some model) → ∃ name node,
    Fields.get? s.models name = some model ∧ Fields.get? parts.schemas name = some node
      ∧ ∀ length, refCount linked.document < length →
        Linked.walk (linked.followWithin length) ("#" ++ pointer) pointer n.place
          (.root linked.document) (pointerParts pointer) = .ok node

/--
**References that are written plainly name the schemas they lead to.**  The references that
stand in the place of all components or of all schemas are no references to schemas.
-/
theorem namesItsTarget_of_isPlainPointer (hd : d.IsSorted)
    (hlinked : Linked.ofFields d.fields = .ok linked) (hprepare : prepare {} d = .ok (s, parts))
    {n : Node} {pointer : String} (href : n.ref? = some ("#" ++ pointer))
    (hplain : IsPlainPointer pointer)
    (hcomponents : ∀ m, Fields.get? parts.document "components" = some m → m.place ≠ n.place)
    (hschemas : ∀ m, Fields.get? parts.components "schemas" = some m → m.place ≠ n.place) :
    NamesItsTarget linked s parts n pointer where
  target := Linked.target_fragment fun c hc hmark =>
    hplain.without c hc (List.mem_cons_of_mem _ hmark)
  model name hname hparts := by
    obtain ⟨model, hmodel⟩ := exists_model hprepare (models_of_prepare hprepare) hname
    exact ⟨model, hmodel, (Scope.modelOf?_eq_some_iff href hplain).mpr ⟨name, hparts, hmodel⟩⟩
  schema model hmodel := by
    obtain ⟨name, hparts, hname⟩ := (Scope.modelOf?_eq_some_iff href hplain).mp hmodel
    have hkey : name ∈ Fields.keys parts.schemas := by
      rw [← keys_modelNames (Fields.keys parts.schemas), ← models_of_prepare hprepare]
      exact Fields.mem_keys_of_get? hname
    obtain ⟨node, hnode⟩ := Fields.exists_get?_of_mem_keys hkey
    refine ⟨name, node, hname, hnode, fun length hlength => ?_⟩
    rw [hparts]
    exact walk_component hd hlinked hprepare hcomponents hschemas hnode hlength

/-- The schema that is another name for a schema of its document. -/
def aliasNode : Node where
  place := [.field "Node", .field "schemas", .field "components"]
  value := .mapping [("$ref", .string "#/components/schemas/node")]

theorem namesItsTarget_aliasNode :
    ∃ linked s parts, Linked.ofFields nodeDocument.fields = .ok linked
      ∧ prepare {} nodeDocument = .ok (s, parts)
      ∧ s.modelOf? aliasNode = .ok (some "Node")
      ∧ NamesItsTarget linked s parts aliasNode "/components/schemas/node" := by
  have hmodel : (prepare {} nodeDocument).toOption.map (fun found => found.1.modelOf? aliasNode)
      = some (.ok (some "Node")) := by decide +kernel
  have hplaces : (prepare {} nodeDocument).toOption.map (fun found =>
        ((Fields.get? found.2.document "components").map Node.place,
          (Fields.get? found.2.components "schemas").map Node.place))
      = some (some [.field "components"], some [.field "schemas", .field "components"]) := by
    decide +kernel
  obtain ⟨linked, hlinked⟩ := except_exists_ok (x := Linked.ofFields nodeDocument.fields)
    (by decide +kernel)
  obtain ⟨⟨s, parts⟩, hprepare⟩ := except_exists_ok (x := prepare {} nodeDocument)
    (by decide +kernel)
  rw [hprepare] at hmodel hplaces
  simp only [Except.toOption, Option.map_some, Option.some.injEq, Prod.mk.injEq] at hmodel hplaces
  have hplain : IsPlainPointer "/components/schemas/node" :=
    ⟨⟨'c', "omponents/schemas/node".toList, rfl, by decide⟩, by decide⟩
  refine ⟨linked, s, parts, hlinked, hprepare, hmodel, namesItsTarget_of_isPlainPointer
    ⟨by decide, by decide⟩ hlinked hprepare rfl hplain (fun m hm => ?_) (fun m hm => ?_)⟩
  · rw [hm, Option.map_some, Option.some.injEq] at hplaces
    rw [hplaces.1]
    decide
  · rw [hm, Option.map_some, Option.some.injEq] at hplaces
    rw [hplaces.2]
    decide

/-- A schema whose name has a blank, and a reference to it that writes the blank as a code. -/
def blankDocument : CanonicalDocument where
  info := [("title", .string "Pets")]
  components := [("schemas", .mapping
    [("Pet Kind", .mapping [("type", .string "string")]),
      ("Pet", .mapping [("$ref", .string "#/components/schemas/Pet%20Kind")])])]

theorem unknownSchema_blankDocument :
    pointerParts "/components/schemas/Pet%20Kind" = ["components", "schemas", "Pet Kind"]
      ∧ (Fields.get? (Fields.fieldsAt blankDocument.components "schemas") "Pet Kind").isSome
      ∧ extract blankDocument = .error (.unknownSchema "#/components/schemas/Pet%20Kind") := by
  have herror : (match extract blankDocument with
      | .error failure => some failure
      | .ok _ => none) = some (.unknownSchema "#/components/schemas/Pet%20Kind") := by
    decide +kernel
  refine ⟨by decide +kernel, by decide, ?_⟩
  cases h : extract blankDocument with
  | error failure =>
      rw [h] at herror
      cases herror
      rfl
  | ok spec =>
      rw [h] at herror
      cases herror

end ApiClientGen.Extraction
