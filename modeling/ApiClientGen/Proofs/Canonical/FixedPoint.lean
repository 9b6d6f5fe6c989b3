/-
The canonical form is a fixed point.

Every version ends in `CanonicalDocument.ofFields`, which sorts the fields of a description
into its parts and drops what is of the wrong kind.  So whatever the content was, the result
has extensions with distinct keys that all are keys of extensions.  A document like that can
be written out and read again without loss: the parts stand under keys that are no
extensions, empty parts are left out and come back empty, and the extensions stand behind
the parts in their order.  Bringing a canonical form into canonical form once more therefore
changes nothing, down to the order of keys.
-/
import ApiClientGen.Canonical.Upgrade
import ApiClientGen.Proofs.Document.Tables

namespace ApiClientGen.Canonical

open ApiClientGen.Document ApiClientGen.Source

/-! ### Extensions -/

theorem isExtension_of_mem_extensions {fields : Fields Value} {key : String}
    (h : key ∈ Fields.keys (extensions fields)) : isExtension key = true := by
  obtain ⟨e, he, rfl⟩ := List.mem_map.mp (Fields.mem_keys_ofEntries.mp h)
  exact (List.mem_filter.mp he).2

/-- Extensions with distinct keys are their own extensions. -/
theorem extensions_eq_self {fields : Fields Value} (hnodup : (Fields.keys fields).Nodup)
    (hall : ∀ k ∈ Fields.keys fields, isExtension k = true) : extensions fields = fields := by
  have hfilter : fields.filter (fun e => isExtension e.1) = fields :=
    List.filter_eq_self.mpr fun e he => hall e.1 (Fields.mem_keys_of_mem he)
  rw [extensions, hfilter]
  exact Fields.ofEntries_eq_self hnodup

/-- Fields without extensions add none in front of others. -/
theorem extensions_append {t u : Fields Value}
    (hnone : ∀ k ∈ Fields.keys t, isExtension k = false) :
    extensions (t ++ u) = extensions u := by
  have hfilter : t.filter (fun e => isExtension e.1) = [] :=
    List.filter_eq_nil_iff.mpr fun e he => by simp [hnone e.1 (Fields.mem_keys_of_mem he)]
  simp [extensions, List.filter_append, hfilter]

theorem mappings_map_mapping (items : List (Fields Value)) :
    mappings (items.map .mapping) = items := by
  induction items with
  | nil => rfl
  | cons fields items ih =>
      show fields :: mappings (items.map .mapping) = fields :: items
      rw [ih]

namespace CanonicalDocument

/-! ### What every canonical form satisfies -/

/-- The extensions have distinct keys, and only keys of extensions. -/
structure IsSorted (d : CanonicalDocument) : Prop where
  nodup : (Fields.keys d.extensions).Nodup
  extension : ∀ k ∈ Fields.keys d.extensions, isExtension k = true

theorem isSorted_ofFields (fields : Fields Value) : (ofFields fields).IsSorted where
  nodup := Fields.nodup_keys_ofEntries _
  extension _ hk := isExtension_of_mem_extensions hk

/-- Whatever its version and its content are, a description ends in `ofFields`. -/
theorem exists_upgrade_eq_ofFields (d : Description) :
    ∃ fields, upgrade d = ofFields fields := by
  unfold upgrade
  cases d.version with
  | swagger2 => exact ⟨_, rfl⟩
  | openapi30 => exact ⟨_, rfl⟩
  | openapi31 => exact ⟨_, rfl⟩

/-! ### Writing out and reading again -/

/-- The keys of the parts that are no extensions. -/
def fixedKeys : List String :=
  ["openapi", "info", "paths", "servers", "components", "security", "tags", "externalDocs"]

/-- The keys of the parts that are there, in their order. -/
theorem keys_fixedFields_sublist (d : CanonicalDocument) :
    (Fields.keys d.fixedFields).Sublist fixedKeys := by
  have hitems : ∀ key items, (Fields.keys (itemsField key items)).Sublist [key] :=
    fun key items => Fields.keys_unless_sublist _ key _
  have hdocs : (Fields.keys (d.externalDocs.map fun docs =>
      ("externalDocs", Value.mapping docs)).toList).Sublist ["externalDocs"] := by
    cases d.externalDocs with
    | none => exact List.nil_sublist _
    | some docs => exact List.Sublist.refl _
  have hfixed : fixedKeys = ["openapi", "info", "paths"] ++ ["servers"] ++ ["components"]
      ++ ["security"] ++ ["tags"] ++ ["externalDocs"] := rfl
  rw [hfixed, fixedFields]
  simp only [Fields.keys_append]
  exact (((((List.Sublist.refl _).append (hitems _ _)).append
    (Fields.keys_unless_sublist _ _ _)).append (hitems _ _)).append (hitems _ _)).append hdocs

theorem mem_fixedKeys {d : CanonicalDocument} {key : String}
    (h : key ∈ Fields.keys d.fixedFields) : key ∈ fixedKeys :=
  (keys_fixedFields_sublist d).subset h

theorem nodup_keys_fields (d : CanonicalDocument) : (Fields.keys d.fields).Nodup :=
  Fields.nodup_keys_update ((keys_fixedFields_sublist d).nodup (by decide)) _

theorem not_isExtension_of_mem_fixedKeys :
    ∀ key ∈ fixedKeys, isExtension key = false := by decide

variable {d : CanonicalDocument}

/-- Extensions are written behind the parts. -/
theorem fields_eq_append (h : d.IsSorted) : d.fields = d.fixedFields ++ d.extensions := by
  refine Fields.update_eq_append h.nodup fun k hk hfixed => ?_
  have hno := not_isExtension_of_mem_fixedKeys k (mem_fixedKeys hfixed)
  rw [h.extension k hk] at hno
  exact Bool.noConfusion hno

/-- Nothing else stands in a canonical form. -/
theorem notMem_keys_fields (h : d.IsSorted) {key : String} (hfixed : key ∉ fixedKeys)
    (hext : isExtension key = false) : key ∉ Fields.keys d.fields := by
  rw [fields_eq_append h, Fields.keys_append, List.mem_append]
  rintro (hmem | hmem)
  · exact hfixed (mem_fixedKeys hmem)
  · rw [h.extension key hmem] at hext
    exact Bool.noConfusion hext

/-- Looking up the key of a part passes over the extensions. -/
theorem get?_fields (h : d.IsSorted) {key : String} (hkey : key ∈ fixedKeys) :
    Fields.get? d.fields key = Fields.get? d.fixedFields key := by
  have hnone : Fields.get? d.extensions key = none := by
    refine Fields.get?_eq_none fun hmem => ?_
    have hno := not_isExtension_of_mem_fixedKeys key hkey
    rw [h.extension key hmem] at hno
    exact Bool.noConfusion hno
  rw [fields_eq_append h, Fields.get?_append, hnone, Option.or_none]

theorem get?_itemsField (key k : String) (items : List (Fields Value)) :
    Fields.get? (itemsField key items) k
      = if key = k ∧ items ≠ [] then some (.list (items.map .mapping)) else none := by
  unfold itemsField
  cases items with
  | nil => simp [Fields.get?]
  | cons fields items => by_cases h : key = k <;> simp [Fields.get?, h]

theorem get?_componentsField (components : Fields Value) (k : String) :
    Fields.get? (if components.isEmpty then [] else [("components", Value.mapping components)]) k
      = if "components" = k ∧ components ≠ [] then some (.mapping components) else none := by
  cases components with
  | nil => simp [Fields.get?]
  | cons e components => by_cases h : "components" = k <;> simp [Fields.get?, h]

theorem get?_docsField (docs : Option (Fields Value)) (k : String) :
    Fields.get? (docs.map fun docs => ("externalDocs", Value.mapping docs)).toList k
      = if "externalDocs" = k then docs.map .mapping else none := by
  cases docs with
  | none => simp [Fields.get?]
  | some docs => by_cases h : "externalDocs" = k <;> simp [Fields.get?, h]

/-- What stands under the key of a part. -/
theorem get?_fixedFields (d : CanonicalDocument) (key : String) :
    Fields.get? d.fixedFields key
      = (Fields.get? [("openapi", .string openapiVersion), ("info", .mapping d.info),
          ("paths", .mapping d.paths)] key
        |>.or (if "servers" = key ∧ d.servers ≠ [] then some (.list (d.servers.map .mapping))
          else none)
        |>.or (if "components" = key ∧ d.components ≠ [] then some (.mapping d.components)
          else none)
        |>.or (if "security" = key ∧ d.security ≠ [] then some (.list (d.security.map .mapping))
          else none)
        |>.or (if "tags" = key ∧ d.tags ≠ [] then some (.list (d.tags.map .mapping)) else none)
        |>.or (if "externalDocs" = key then d.externalDocs.map .mapping else none)) := by
  simp only [fixedFields, Fields.get?_append, get?_itemsField, get?_componentsField, get?_docsField]

/-- An absent part reads as an empty one. -/
theorem getD_itemsOf (items : List (Fields Value)) :
    mappings (((if items ≠ [] then some (Value.list (items.map .mapping)) else none).map
      Value.asItems).getD []) = items := by
  by_cases h : items = []
  · simp [h, mappings]
  · simp [h, Value.asItems, mappings_map_mapping]

theorem getD_fieldsOf (fields : Fields Value) :
    (((if fields ≠ [] then some (Value.mapping fields) else none).map Value.asFields).getD [])
      = fields := by
  by_cases h : fields = []
  · simp [h]
  · simp [h, Value.asFields]

/-- **A canonical form is what its own fields are read as.** -/
theorem ofFields_fields (h : d.IsSorted) : ofFields d.fields = d := by
  have hext : Canonical.extensions d.fields = d.extensions := by
    rw [fields_eq_append h, extensions_append fun k hk =>
      not_isExtension_of_mem_fixedKeys k (mem_fixedKeys hk)]
    exact extensions_eq_self h.nodup h.extension
  have hget : ∀ key ∈ fixedKeys, _ := fun key hkey => get?_fields h hkey
  have hinfo : Fields.fieldsAt d.fields "info" = d.info := by
    rw [Fields.fieldsAt, hget _ (by decide), get?_fixedFields]
    simp [Fields.get?, Value.asFields]
  have hpaths : Fields.fieldsAt d.fields "paths" = d.paths := by
    rw [Fields.fieldsAt, hget _ (by decide), get?_fixedFields]
    simp [Fields.get?, Value.asFields]
  have hcomponents : Fields.fieldsAt d.fields "components" = d.components := by
    rw [Fields.fieldsAt, hget _ (by decide), get?_fixedFields]
    simpa [Fields.get?] using getD_fieldsOf d.components
  have hservers : mappings (Fields.itemsAt d.fields "servers") = d.servers := by
    rw [Fields.itemsAt, hget _ (by decide), get?_fixedFields]
    simpa [Fields.get?] using getD_itemsOf d.servers
  have hsecurity : mappings (Fields.itemsAt d.fields "security") = d.security := by
    rw [Fields.itemsAt, hget _ (by decide), get?_fixedFields]
    simpa [Fields.get?] using getD_itemsOf d.security
  have htags : mappings (Fields.itemsAt d.fields "tags") = d.tags := by
    rw [Fields.itemsAt, hget _ (by decide), get?_fixedFields]
    simpa [Fields.get?] using getD_itemsOf d.tags
  have hdocs : Fields.get? d.fields "externalDocs" = d.externalDocs.map .mapping := by
    rw [hget _ (by decide), get?_fixedFields]
    simp [Fields.get?]
  unfold ofFields
  rw [hext, hinfo, hpaths, hcomponents, hservers, hsecurity, htags, hdocs]
  cases d with
  | mk info servers paths components security tags externalDocs ext =>
      cases externalDocs <;> rfl

end CanonicalDocument

/--
**Upgrading is idempotent.**  A description of any version, brought into canonical form and
taken for a description of its own, has that same canonical form; and the fields written out
are the same, in the same order at every level.
-/
theorem upgrade_description_upgrade (d : Description) :
    upgrade (upgrade d).description = upgrade d
      ∧ (upgrade (upgrade d).description).fields = (upgrade d).fields := by
  have hfixed : upgrade (upgrade d).description = upgrade d := by
    obtain ⟨fields, hfields⟩ := CanonicalDocument.exists_upgrade_eq_ofFields d
    have hsorted : (upgrade d).IsSorted := by
      rw [hfields]
      exact CanonicalDocument.isSorted_ofFields fields
    exact CanonicalDocument.ofFields_fields hsorted
  exact ⟨hfixed, by rw [hfixed]⟩

end ApiClientGen.Canonical
