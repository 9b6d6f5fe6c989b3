/-
Parts of the wrong kind.

A part of a description of version 2 that is not of its kind counts as missing: a table that is no
mapping, a list that is none, a text that is something else, a member of a list that cannot be one
of its members.  Such parts stand on three levels, in the description, in its paths and in their
operations, and on each of them there is a table of rules that says what is left of which field
(`Content.rules`, `PathItem.rules`, `Operation.rules`).  A field without a rule is left alone.

Conversion reads fields only in ways that do not tell what is left from what was there: as fields,
as items or texts of a list, as a text.  One lemma for each way of reading and rule says so, and
each level is converted to the same as before since the levels below it are.
-/
import ApiClientGen.Canonical.Upgrade
import ApiClientGen.Proofs.Canonical.Swagger.ComparedKeys
import ApiClientGen.Proofs.Canonical.Swagger.Sharing

namespace ApiClientGen.Document

/-! ### Rules -/

/-- Says what is left of a value; nothing if it goes. -/
abbrev Rule := Value → Option Value

namespace Rule

/-- Leaves mappings, with what is left of their fields. -/
def mapping (left : Fields Value → Fields Value) : Rule
  | .mapping fields => some (.mapping (left fields))
  | _ => none

/-- Leaves lists, with those items that may be there. -/
def list (isMember : Value → Bool) : Rule
  | .list items => some (.list (items.filter isMember))
  | _ => none

/-- Leaves texts. -/
def text : Rule
  | .string s => some (.string s)
  | _ => none

/-- Leaves everything, but of a list only those items that may be there. -/
def members (isMember : Value → Bool) : Rule
  | .list items => some (.list (items.filter isMember))
  | v => some v

end Rule

namespace Fields

open ApiClientGen.Fields

/-- What a rule leaves of a table: it is about the value under one key. -/
def keep (t : Fields Value) (key : String) (rule : Rule) : Fields Value :=
  match get? t key with
  | none => t
  | some v =>
    match rule v with
    | some left => set t key left
    | none => erase t key

/-- What the rules leave of a table, each about its own key. -/
def keepAll (rules : Fields Rule) (t : Fields Value) : Fields Value :=
  rules.foldl (fun t r => keep t r.1 r.2) t

theorem get?_keep (t : Fields Value) (key k : String) (rule : Rule) :
    get? (keep t key rule) k = if key = k then (get? t key).bind rule else get? t k := by
  unfold keep
  cases hget : get? t key with
  | none =>
      by_cases hk : key = k
      · rw [if_pos hk, ← hk]
        exact hget
      · rw [if_neg hk]
  | some v =>
      dsimp only
      cases hleft : rule v with
      | none => rw [Option.bind_some, hleft, Fields.get?_erase]
      | some left => rw [Option.bind_some, hleft, Fields.get?_set]

theorem get?_keepAll_of_notMem {rules : Fields Rule} {key : String} (h : key ∉ keys rules)
    (t : Fields Value) : get? (keepAll rules t) key = get? t key := by
  induction rules generalizing t with
  | nil => rfl
  | cons r rules ih =>
      rw [keys, List.map_cons, List.mem_cons, not_or] at h
      rw [keepAll, List.foldl_cons]
      refine (ih h.2 _).trans ?_
      rw [get?_keep, if_neg fun heq => h.1 heq.symm]

/-- The value under the key of a rule is what the rule leaves of it. -/
theorem get?_keepAll {rules : Fields Rule} (hnodup : (keys rules).Nodup) {key : String} {rule : Rule}
    (h : get? rules key = some rule) (t : Fields Value) :
    get? (keepAll rules t) key = (get? t key).bind rule := by
  induction rules generalizing t with
  | nil => cases h
  | cons r rules ih =>
      obtain ⟨k, own⟩ := r
      obtain ⟨hfresh, hrest⟩ := List.nodup_cons.mp hnodup
      rw [keepAll, List.foldl_cons]
      by_cases hk : k = key
      · subst hk
        rw [get?, if_pos rfl] at h
        cases h
        refine (get?_keepAll_of_notMem hfresh _).trans ?_
        rw [get?_keep, if_pos rfl]
      · rw [get?, if_neg hk] at h
        refine (ih hrest h _).trans ?_
        rw [get?_keep, if_neg hk]

/-! ### What a reader sees of what is left -/

section

variable {t u : Fields Value} {key : String}

theorem fieldsAt_of_mapping (left : Fields Value → Fields Value) (hnil : left [] = [])
    (h : get? u key = (get? t key).bind (Rule.mapping left)) : fieldsAt u key = left (fieldsAt t key) := by
  rw [fieldsAt, fieldsAt, h]
  cases get? t key with
  | none => exact hnil.symm
  | some v =>
      cases v with
      | mapping fields => rfl
      | list items => exact hnil.symm
      | scalar s => exact hnil.symm

theorem itemsAt_of_list {isMember : Value → Bool}
    (h : get? u key = (get? t key).bind (Rule.list isMember)) :
    itemsAt u key = (itemsAt t key).filter isMember := by
  rw [itemsAt, itemsAt, h]
  cases get? t key with
  | none => rfl
  | some v => cases v <;> rfl

theorem textAt?_of_text (h : get? u key = (get? t key).bind Rule.text) : textAt? u key = textAt? t key := by
  rw [textAt?, textAt?, h]
  cases get? t key with
  | none => rfl
  | some v =>
      cases v with
      | scalar s => cases s <;> rfl
      | list items => rfl
      | mapping fields => rfl

end

end Fields

end ApiClientGen.Document

namespace ApiClientGen.Canonical.Swagger

open ApiClientGen.Document

theorem extensions_erase (t : Fields Value) {key : String} (h : isExtension key = false) :
    extensions (Fields.erase t key) = extensions t := by
  rw [extensions, Fields.erase, List.filter_filter, extensions]
  refine congrArg _ (List.filter_congr fun e he => ?_)
  by_cases hk : e.1 = key <;> simp [hk, h]

theorem extensions_keep (t : Fields Value) {key : String} (rule : Rule) (h : isExtension key = false) :
    extensions (Fields.keep t key rule) = extensions t := by
  unfold Fields.keep
  split
  next => rfl
  next v hv =>
    split
    next left hleft => exact extensions_set h left
    next hgone => exact extensions_erase t h

/-- Rules about other fields leave the extensions. -/
theorem extensions_keepAll {rules : Fields Rule} (h : ∀ k ∈ Fields.keys rules, isExtension k = false)
    (t : Fields Value) : extensions (Fields.keepAll rules t) = extensions t := by
  induction rules generalizing t with
  | nil => rfl
  | cons r rules ih =>
      obtain ⟨hkey, hrest⟩ := List.forall_mem_cons.mp h
      exact (ih hrest _).trans (extensions_keep t r.2 hkey)

/-! ### The parts of a description and their kinds -/

/-- Whether a value is a text. -/
def isText (v : Value) : Bool := v.asText?.isSome

/-- What is left of the fields of an operation. -/
def Operation.rules : Fields Rule := [
  ("parameters", .list Value.isMapping),
  ("consumes", .list isText),
  ("produces", .list isText),
  ("schemes", .members isText),
  ("responses", .mapping id)]

/-- What is left of the fields of a path. -/
def PathItem.rules : Fields Rule :=
  ("parameters", .list Value.isMapping)
    :: methods.map fun m => (m, .mapping (Fields.keepAll Operation.rules))

/-- The paths that are mappings, with what is left of their fields. -/
def Paths.keep (paths : Fields Value) : Fields Value :=
  paths.filterMap fun p => (Rule.mapping (Fields.keepAll PathItem.rules) p.2).map fun v => (p.1, v)

/-- What is left of the fields of a description. -/
def Content.rules : Fields Rule := [
  ("info", .mapping id),
  ("paths", .mapping Paths.keep),
  ("definitions", .mapping id),
  ("parameters", .mapping id),
  ("responses", .mapping id),
  ("securityDefinitions", .mapping id),
  ("externalDocs", .mapping id),
  ("security", .list fun _ => true),
  ("tags", .list fun _ => true),
  ("consumes", .list isText),
  ("produces", .list isText),
  ("schemes", .list isText),
  ("host", .text),
  ("basePath", .text)]

/-- A description without its parts of the wrong kind. -/
def withoutMisplaced (content : Fields Value) : Fields Value := Fields.keepAll Content.rules content

/-! ### Operations -/

theorem texts_filter_isText (items : List Value) : texts (items.filter isText) = texts items := by
  unfold texts
  rw [List.filterMap_filter]
  refine List.filterMap_congr fun v hv => ?_
  unfold isText
  cases v.asText? <;> rfl

theorem filterMap_ofValue?_filter_isMapping (shared : Fields Value) (items : List Value) :
    (items.filter Value.isMapping).filterMap (Entry.ofValue? shared)
      = items.filterMap (Entry.ofValue? shared) := by
  rw [List.filterMap_filter]
  refine List.filterMap_congr fun v hv => ?_
  cases v <;> rfl

/-- Only the mappings of a list of parameters count. -/
theorem writtenEntries_filter_isMapping (shared : Fields Value) (ofPath ofOperation : List Value) :
    writtenEntries shared (ofPath.filter Value.isMapping) (ofOperation.filter Value.isMapping)
      = writtenEntries shared ofPath ofOperation := by
  unfold writtenEntries
  rw [List.filterMap_append, List.filterMap_append, filterMap_ofValue?_filter_isMapping,
    filterMap_ofValue?_filter_isMapping]

theorem effectiveEntries_filter_isMapping (shared : Fields Value) (ofPath ofOperation : List Value) :
    effectiveEntries shared (ofPath.filter Value.isMapping) (ofOperation.filter Value.isMapping)
      = effectiveEntries shared ofPath ofOperation := by
  rw [effectiveEntries, writtenEntries_filter_isMapping, effectiveEntries]

theorem nodup_operationRules : (Fields.keys Operation.rules).Nodup := by decide

theorem parametersAt_keepAll_operation (operation : Fields Value) :
    Fields.itemsAt (Fields.keepAll Operation.rules operation) "parameters"
      = (Fields.itemsAt operation "parameters").filter Value.isMapping :=
  Fields.itemsAt_of_list (Fields.get?_keepAll nodup_operationRules rfl operation)

/-- An operation is converted to the same. -/
theorem convertOperation_keepAll (spec : Fields Value) (ofPath : List Value) (operation : Fields Value) :
    convertOperation spec (ofPath.filter Value.isMapping) (Fields.keepAll Operation.rules operation)
      = convertOperation spec ofPath operation := by
  have hconsumes : texts (Fields.itemsAt (Fields.keepAll Operation.rules operation) "consumes")
      = texts (Fields.itemsAt operation "consumes") := by
    rw [Fields.itemsAt_of_list (Fields.get?_keepAll nodup_operationRules rfl operation),
      texts_filter_isText]
  have hproduces : texts (Fields.itemsAt (Fields.keepAll Operation.rules operation) "produces")
      = texts (Fields.itemsAt operation "produces") := by
    rw [Fields.itemsAt_of_list (Fields.get?_keepAll nodup_operationRules rfl operation),
      texts_filter_isText]
  have hresponses : Fields.fieldsAt (Fields.keepAll Operation.rules operation) "responses"
      = Fields.fieldsAt operation "responses" :=
    Fields.fieldsAt_of_mapping id rfl (Fields.get?_keepAll nodup_operationRules rfl operation)
  have hselect : Fields.select (Fields.keepAll Operation.rules operation)
        ["tags", "summary", "description", "externalDocs", "operationId", "deprecated", "security"]
      = Fields.select operation
        ["tags", "summary", "description", "externalDocs", "operationId", "deprecated", "security"] := by
    refine List.filterMap_congr fun name hname => ?_
    have hfree : name ∉ Fields.keys Operation.rules := by
      revert name
      decide
    rw [Fields.get?_keepAll_of_notMem hfree]
  unfold convertOperation effectiveMediaTypes
  dsimp only
  rw [parametersAt_keepAll_operation, hconsumes, hproduces, hresponses, hselect, effectiveEntries_filter_isMapping,
    extensions_keepAll (by decide)]

/-! ### Paths -/

theorem nodup_pathItemRules : (Fields.keys PathItem.rules).Nodup := by decide

theorem get?_pathItemRules {method : String} (h : method ∈ methods) :
    Fields.get? PathItem.rules method = some (.mapping (Fields.keepAll Operation.rules)) := by
  have hne : "parameters" ≠ method := by
    rintro rfl
    exact absurd h parameters_notMem_methods
  rw [PathItem.rules, Fields.get?, if_neg hne]
  refine Fields.get?_of_mem ?_ (List.mem_map_of_mem h)
  exact (List.nodup_cons.mp nodup_pathItemRules).2

theorem parametersAt_keepAll_pathItem (item : Fields Value) :
    Fields.itemsAt (Fields.keepAll PathItem.rules item) "parameters"
      = (Fields.itemsAt item "parameters").filter Value.isMapping :=
  Fields.itemsAt_of_list (Fields.get?_keepAll nodup_pathItemRules rfl item)

/-- A path is converted to the same. -/
theorem convertPathItem_keepAll (spec item : Fields Value) :
    convertPathItem spec (Fields.keepAll PathItem.rules item) = convertPathItem spec item := by
  unfold convertPathItem
  rw [extensions_keepAll (by decide), parametersAt_keepAll_pathItem]
  refine congrArg (Fields.update · _) (List.filterMap_congr fun method hmethod => ?_)
  rw [Fields.get?_keepAll nodup_pathItemRules (get?_pathItemRules hmethod)]
  cases Fields.get? item method with
  | none => rfl
  | some v =>
      cases v with
      | mapping operation =>
          refine congrArg (fun fields => some (method, Value.mapping fields)) ?_
          exact convertOperation_keepAll spec _ operation
      | list items => rfl
      | scalar s => rfl

/-- For the operations of a path the same parameters are compared. -/
theorem pathItemEntries_keepAll (spec item : Fields Value) :
    pathItemEntries spec (Fields.keepAll PathItem.rules item) = pathItemEntries spec item := by
  unfold pathItemEntries
  rw [parametersAt_keepAll_pathItem]
  refine List.flatMap_congr fun method hmethod => ?_
  rw [Fields.get?_keepAll nodup_pathItemRules (get?_pathItemRules hmethod)]
  cases Fields.get? item method with
  | none => rfl
  | some v =>
      cases v with
      | mapping operation =>
          dsimp only [Option.bind_some, Rule.mapping]
          rw [parametersAt_keepAll_operation, writtenEntries_filter_isMapping]
      | list items => rfl
      | scalar s => rfl

/-! ### Descriptions -/

section

variable (content : Fields Value)

theorem nodup_contentRules : (Fields.keys Content.rules).Nodup := by decide

theorem get?_withoutMisplaced (key : String) {rule : Rule} (h : Fields.get? Content.rules key = some rule) :
    Fields.get? (withoutMisplaced content) key = (Fields.get? content key).bind rule :=
  Fields.get?_keepAll nodup_contentRules h content

theorem fieldsAt_withoutMisplaced (key : String) (h : Fields.get? Content.rules key = some (.mapping id)) :
    Fields.fieldsAt (withoutMisplaced content) key = Fields.fieldsAt content key :=
  Fields.fieldsAt_of_mapping id rfl (get?_withoutMisplaced content key h)

theorem itemsAt_withoutMisplaced (key : String)
    (h : Fields.get? Content.rules key = some (.list fun _ => true)) :
    Fields.itemsAt (withoutMisplaced content) key = Fields.itemsAt content key := by
  rw [Fields.itemsAt_of_list (get?_withoutMisplaced content key h), List.filter_true]

theorem texts_withoutMisplaced (key : String) (h : Fields.get? Content.rules key = some (.list isText)) :
    texts (Fields.itemsAt (withoutMisplaced content) key) = texts (Fields.itemsAt content key) := by
  rw [Fields.itemsAt_of_list (get?_withoutMisplaced content key h), texts_filter_isText]

theorem textAt?_withoutMisplaced (key : String) (h : Fields.get? Content.rules key = some .text) :
    Fields.textAt? (withoutMisplaced content) key = Fields.textAt? content key :=
  Fields.textAt?_of_text (get?_withoutMisplaced content key h)

theorem servers_withoutMisplaced : servers (withoutMisplaced content) = servers content := by
  unfold servers
  rw [textAt?_withoutMisplaced content _ rfl, textAt?_withoutMisplaced content _ rfl,
    texts_withoutMisplaced content _ rfl]

theorem components_withoutMisplaced : components (withoutMisplaced content) = components content := by
  unfold components effectiveMediaTypes
  simp only [fieldsAt_withoutMisplaced content "parameters" rfl,
    fieldsAt_withoutMisplaced content "definitions" rfl,
    fieldsAt_withoutMisplaced content "responses" rfl,
    fieldsAt_withoutMisplaced content "securityDefinitions" rfl,
    texts_withoutMisplaced content "consumes" rfl,
    texts_withoutMisplaced content "produces" rfl]

/-- Operations look only at the parameters and the media types of a description. -/
theorem convertOperation_withoutMisplaced (ofPath : List Value) (operation : Fields Value) :
    convertOperation (withoutMisplaced content) ofPath operation
      = convertOperation content ofPath operation := by
  unfold convertOperation effectiveMediaTypes
  simp only [fieldsAt_withoutMisplaced content "parameters" rfl,
    texts_withoutMisplaced content "consumes" rfl,
    texts_withoutMisplaced content "produces" rfl]

theorem pathsAt_withoutMisplaced :
    Fields.fieldsAt (withoutMisplaced content) "paths" = Paths.keep (Fields.fieldsAt content "paths") :=
  Fields.fieldsAt_of_mapping _ rfl (get?_withoutMisplaced content _ rfl)

theorem paths_withoutMisplaced : paths (withoutMisplaced content) = paths content := by
  unfold paths
  rw [pathsAt_withoutMisplaced, Paths.keep, List.filterMap_filterMap]
  refine List.filterMap_congr fun p hp => ?_
  obtain ⟨path, v⟩ := p
  cases v with
  | mapping item =>
      refine congrArg (fun fields => some (path, Value.mapping fields)) ?_
      rw [← convertPathItem_keepAll content item]
      unfold convertPathItem
      simp only [convertOperation_withoutMisplaced]
  | list items => rfl
  | scalar s => rfl

theorem convert_withoutMisplaced : convert (withoutMisplaced content) = convert content := by
  unfold convert
  rw [fieldsAt_withoutMisplaced content _ rfl, servers_withoutMisplaced, paths_withoutMisplaced,
    components_withoutMisplaced, itemsAt_withoutMisplaced content _ rfl,
    itemsAt_withoutMisplaced content _ rfl, withoutMisplaced, extensions_keepAll (by decide),
    ← withoutMisplaced, get?_withoutMisplaced content "externalDocs" rfl]
  cases Fields.get? content "externalDocs" with
  | none => rfl
  | some v => cases v <;> rfl

theorem comparedEntries_withoutMisplaced :
    comparedEntries (withoutMisplaced content) = comparedEntries content := by
  have hentries : ∀ item, pathItemEntries (withoutMisplaced content) (Fields.keepAll PathItem.rules item)
      = pathItemEntries content item := by
    intro item
    rw [← pathItemEntries_keepAll content item]
    unfold pathItemEntries
    rw [fieldsAt_withoutMisplaced content "parameters" rfl]
  unfold comparedEntries
  rw [pathsAt_withoutMisplaced, Paths.keep, List.filterMap_eq_flatMap_toList, List.flatMap_assoc]
  refine List.flatMap_congr fun p hp => ?_
  obtain ⟨path, v⟩ := p
  cases v with
  | mapping item => simpa [Rule.mapping] using hentries item
  | list items => rfl
  | scalar s => rfl

/-- Without parts of the wrong kind a description is still one, and it is upgraded to the same. -/
theorem upgrade_withoutMisplaced :
    Source.Version.ofFields (withoutMisplaced content) = Source.Version.ofFields content
      ∧ upgrade ⟨.swagger2, withoutMisplaced content⟩ = upgrade ⟨.swagger2, content⟩ := by
  constructor
  · unfold Source.Version.ofFields withoutMisplaced
    rw [Fields.get?_keepAll_of_notMem (by decide), Fields.get?_keepAll_of_notMem (by decide)]
  · unfold upgrade CanonicalDocument.ofSwagger
    dsimp only
    rw [convert_withoutMisplaced]

/--
**Parts of the wrong kind count as missing**: without them a description of version 2 is still one,
and it has the same canonical form.  Either both have one or neither has, and they have one unless
a parameter that is compared has an integer of too many digits in its name or place.
-/
theorem canonicalize_withoutMisplaced :
    Source.Version.ofFields (withoutMisplaced content) = Source.Version.ofFields content
      ∧ canonicalize ⟨.swagger2, withoutMisplaced content⟩ = canonicalize ⟨.swagger2, content⟩
      ∧ ((∃ c, canonicalize ⟨.swagger2, withoutMisplaced content⟩ = .ok c)
        ↔ ∀ e, IsCompared content e → ¬ e.HasLongKey) := by
  obtain ⟨hversion, hupgrade⟩ := upgrade_withoutMisplaced content
  have hsame : canonicalize ⟨.swagger2, withoutMisplaced content⟩ = canonicalize ⟨.swagger2, content⟩ := by
    unfold canonicalize hasKeys
    dsimp only
    rw [comparedEntries_withoutMisplaced, hupgrade]
  refine ⟨hversion, hsame, ?_⟩
  rw [hsame]
  constructor
  · rintro ⟨c, hc⟩ e he hlong
    exact ((canonicalize_ends _).of_ok hc).2 ⟨rfl, e, he, hlong⟩
  · intro hshort
    cases hd : canonicalize ⟨.swagger2, content⟩ with
    | ok c => exact ⟨c, rfl⟩
    | error fault =>
        obtain ⟨-, -, e, he, hlong⟩ := (canonicalize_ends _).of_error hd
        exact absurd hlong (hshort e he)

end

/-- A description with a host that is no text and a parameter that has a long integer for its name. -/
def numberedHost : Fields Value :=
  [("swagger", .string "2.0"), ("host", .int 7), ("paths", .mapping (pathsOfNamed longInteger))]

/-- **Without its host it still has no canonical form**: the name is no text, but it stays. -/
theorem not_canonicalize_numberedHost :
    withoutMisplaced numberedHost
        = [("swagger", .string "2.0"), ("paths", .mapping (pathsOfNamed longInteger))]
      ∧ canonicalize ⟨.swagger2, withoutMisplaced numberedHost⟩ = .error .longInteger
      ∧ ¬ ∀ content, ∃ c, canonicalize ⟨.swagger2, withoutMisplaced content⟩ = .ok c
        ∧ canonicalize ⟨.swagger2, content⟩ = .ok c := by
  have hleft : withoutMisplaced numberedHost
      = [("swagger", .string "2.0"), ("paths", .mapping (pathsOfNamed longInteger))] := rfl
  have hfault : canonicalize ⟨.swagger2, withoutMisplaced numberedHost⟩ = .error .longInteger := by
    rw [hleft]
    exact canonicalize_of_hasLongKey (hasLongKey_of_paths rfl holds_isLong_longInteger)
  refine ⟨hleft, hfault, fun hall => ?_⟩
  obtain ⟨c, hc, -⟩ := hall numberedHost
  rw [hfault] at hc
  cases hc

example :
    withoutMisplaced [("swagger", .string "2.0"), ("host", .int 7),
        ("consumes", .list [.null, .string "text/plain"]),
        ("paths", .mapping [("/a", .list []),
          ("/b", .mapping [("get", .null), ("parameters", .list [.int 1])])])]
      = [("swagger", .string "2.0"), ("consumes", .list [.string "text/plain"]),
        ("paths", .mapping [("/b", .mapping [("parameters", .list [])])])] := by
  decide +kernel

end ApiClientGen.Canonical.Swagger
