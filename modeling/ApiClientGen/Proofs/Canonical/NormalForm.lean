/-
The normal form of schemas.

A schema in normal form says nothing in a way that only version 3.1 knows: it has at most one
type, which is not that of null, no constant, no list of examples, and no exclusive bound that
is a number.  Bringing a schema down to it works on one keyword after the other, and none of
the steps writes what another one has taken away.  The only schemas that are added are the
alternatives that stand for several types, which say no more than a type each.  So all schemas
of a description are in normal form afterwards, and bringing them down once more finds nothing
to do.
-/
import ApiClientGen.Proofs.Canonical.FixedPoint
import ApiClientGen.Proofs.Canonical.InnerSchemas
import ApiClientGen.Proofs.Canonical.SchemaPlaces

namespace ApiClientGen.Canonical

open ApiClientGen.Document ApiClientGen.Source

/-- No member of a list of types is a list itself. -/
def HasFlatTypes (schema : Fields Value) : Prop :=
  ∀ type ∈ Fields.itemsAt schema "type", type.isList = false

instance (schema : Fields Value) : Decidable (HasFlatTypes schema) :=
  inferInstanceAs (Decidable (∀ type ∈ Fields.itemsAt schema "type", type.isList = false))

/-- **A schema in normal form.** -/
structure IsNormal (schema : Fields Value) : Prop where
  /-- It does not list its types. -/
  type : ∀ types, Fields.get? schema "type" ≠ some (.list types)
  /-- Its type is not that of null. -/
  null : Fields.get? schema "type" ≠ some nullType
  /-- It has no constant. -/
  const : Fields.get? schema "const" = none
  /-- It does not list examples. -/
  examples : ∀ examples, Fields.get? schema "examples" ≠ some (.list examples)
  /-- Its exclusive bounds are no numbers. -/
  minimum : ∀ bound, Fields.get? schema "exclusiveMinimum" = some bound → isNumber bound = false
  maximum : ∀ bound, Fields.get? schema "exclusiveMaximum" = some bound → isNumber bound = false

/-! ### What the steps leave alone -/

variable {fields : Fields Value} {key : String}

theorem get?_withTypes (types alternatives : List Value) (fields : Fields Value)
    (hkey : key ∉ ["type", "nullable", "anyOf"]) :
    Fields.get? (withTypes types alternatives fields) key = Fields.get? fields key := by
  simp only [List.mem_cons, List.not_mem_nil, or_false, not_or] at hkey
  obtain ⟨htype, hnullable, hany⟩ := hkey
  unfold withTypes
  dsimp only
  split <;> split <;>
    simp [Fields.get?_set, Fields.get?_erase, Ne.symm htype, Ne.symm hnullable, Ne.symm hany]

theorem get?_downgradeType (hkey : key ∉ ["type", "nullable", "anyOf"]) :
    Fields.get? (downgradeType fields) key = Fields.get? fields key := by
  unfold downgradeType
  split
  · exact get?_withTypes _ _ fields hkey
  · simp only [List.mem_cons, List.not_mem_nil, or_false, not_or] at hkey
    split
    · simp [withNull, Fields.get?_set, Fields.get?_erase, Ne.symm hkey.1, Ne.symm hkey.2.1]
    · rfl
  · rfl

theorem get?_downgradeConst (hkey : key ∉ ["const", "enum"]) :
    Fields.get? (downgradeConst fields) key = Fields.get? fields key := by
  simp only [List.mem_cons, List.not_mem_nil, or_false, not_or] at hkey
  unfold downgradeConst
  split
  · simp [Fields.get?_set, Fields.get?_erase, Ne.symm hkey.1, Ne.symm hkey.2]
  · rfl

theorem get?_downgradeExamples (hkey : key ∉ ["examples", "example"]) :
    Fields.get? (downgradeExamples fields) key = Fields.get? fields key := by
  simp only [List.mem_cons, List.not_mem_nil, or_false, not_or] at hkey
  unfold downgradeExamples
  split
  · dsimp only
    split
    · split <;> simp [Fields.get?_set, Fields.get?_erase, Ne.symm hkey.1, Ne.symm hkey.2]
    · simp [Fields.get?_erase, Ne.symm hkey.1]
  · rfl

theorem get?_downgradeBound {exclusive bound : String} (hkey : key ∉ [exclusive, bound]) :
    Fields.get? (downgradeBound exclusive bound fields) key = Fields.get? fields key := by
  simp only [List.mem_cons, List.not_mem_nil, or_false, not_or] at hkey
  unfold downgradeBound
  split
  · split
    · simp [Fields.get?_set, Ne.symm hkey.1, Ne.symm hkey.2]
    · rfl
  · rfl

/-! ### What the steps give -/

/-- What stands as the type once the types are brought down: no list, and not null. -/
theorem type_downgradeType (hflat : HasFlatTypes fields) {type : Value}
    (h : Fields.get? (downgradeType fields) "type" = some type) :
    type.isList = false ∧ type ≠ nullType := by
  unfold downgradeType at h
  split at h
  · rename_i types htypes
    have hproper : ∀ t ∈ properTypes types, t.isList = false ∧ t ≠ nullType := by
      intro t ht
      obtain ⟨hmem, hne⟩ := List.mem_filter.mp ht
      refine ⟨hflat t ?_, by simpa using hne⟩
      simpa [Fields.itemsAt, htypes, Value.asItems] using hmem
    unfold withTypes at h
    dsimp only at h
    split at h
    · simp [Fields.get?_erase] at h
    · rename_i proper heq
      rw [Fields.get?_set_self] at h
      cases h
      exact hproper type (by simp [heq])
    · simp [Fields.get?_set, Fields.get?_erase] at h
  · rename_i other hnolist hother
    split at h
    · simp [withNull, Fields.get?_set, Fields.get?_erase] at h
    · rename_i hne
      rw [hother] at h
      cases h
      refine ⟨?_, hne⟩
      cases type with
      | list types => exact absurd rfl (hnolist types)
      | scalar s => rfl
      | mapping fields => rfl
  · rename_i hnone
    rw [hnone] at h
    cases h

theorem const_downgradeConst : Fields.get? (downgradeConst fields) "const" = none := by
  unfold downgradeConst
  split
  · simp [Fields.get?_set, Fields.get?_erase]
  · assumption

theorem examples_downgradeExamples (examples : List Value) :
    Fields.get? (downgradeExamples fields) "examples" ≠ some (.list examples) := by
  unfold downgradeExamples
  split
  · dsimp only
    split
    · split <;> simp [Fields.get?_set, Fields.get?_erase]
    · simp [Fields.get?_erase]
  · rename_i hno
    exact hno examples

theorem bound_downgradeBound {exclusive bound : String} {value : Value}
    (h : Fields.get? (downgradeBound exclusive bound fields) exclusive = some value) :
    isNumber value = false := by
  unfold downgradeBound at h
  split at h
  · split at h
    · rw [Fields.get?_set_self] at h
      cases h
      rfl
    · rename_i other hother hno
      rw [hother] at h
      cases h
      simpa using hno
  · rename_i hnone
    rw [hnone] at h
    cases h

/-- The types of a schema that is brought down are those that the step for types leaves. -/
theorem get?_type_downgradeSchema :
    Fields.get? (downgradeSchema fields) "type" = Fields.get? (downgradeType fields) "type" := by
  unfold downgradeSchema
  rw [get?_downgradeBound (by decide), get?_downgradeBound (by decide),
    get?_downgradeExamples (by decide), get?_downgradeConst (by decide)]

/-- **A schema with flat types that is brought down is in normal form.** -/
theorem isNormal_downgradeSchema (hflat : HasFlatTypes fields) :
    IsNormal (downgradeSchema fields) where
  type types h := by
    rw [get?_type_downgradeSchema] at h
    exact Bool.noConfusion (type_downgradeType hflat h).1
  null h := by
    rw [get?_type_downgradeSchema] at h
    exact (type_downgradeType hflat h).2 rfl
  const := by
    unfold downgradeSchema
    rw [get?_downgradeBound (by decide), get?_downgradeBound (by decide),
      get?_downgradeExamples (by decide)]
    exact const_downgradeConst
  examples examples := by
    unfold downgradeSchema
    rw [get?_downgradeBound (by decide), get?_downgradeBound (by decide)]
    exact examples_downgradeExamples examples
  minimum bound h := by
    unfold downgradeSchema at h
    rw [get?_downgradeBound (by decide)] at h
    exact bound_downgradeBound h
  maximum _ h := bound_downgradeBound h

/-- **A schema in normal form has nothing to bring down.** -/
theorem downgradeSchema_eq_self (h : IsNormal fields) : downgradeSchema fields = fields := by
  have htype : downgradeType fields = fields := by
    unfold downgradeType
    split
    · rename_i types htypes
      exact absurd htypes (h.type types)
    · rename_i type hnolist hsome
      exact if_neg fun heq : type = nullType => h.null (heq ▸ hsome)
    · rfl
  have hconst : downgradeConst fields = fields := by
    unfold downgradeConst
    rw [h.const]
  have hexamples : downgradeExamples fields = fields := by
    unfold downgradeExamples
    split
    · rename_i examples hlist
      exact absurd hlist (h.examples examples)
    · rfl
  have hbound : ∀ exclusive bound,
      (∀ value, Fields.get? fields exclusive = some value → isNumber value = false) →
        downgradeBound exclusive bound fields = fields := by
    intro exclusive bound hno
    unfold downgradeBound
    split
    · rename_i value hvalue
      rw [if_neg (by simp [hno value hvalue])]
    · rfl
  simp only [downgradeSchema, htype, hconst, hexamples, hbound _ _ h.minimum, hbound _ _ h.maximum]

/-! ### The schemas inside -/

/-- A schema that says no more than a type is in normal form. -/
theorem isNormal_typeSchema {type : Value} (hlist : type.isList = false) (hnull : type ≠ nullType) :
    ∀ s ∈ schemasIn (typeSchema type), IsNormal s := by
  have heq : typeSchema type = .mapping [("type", type)] := by
    cases type with
    | list types => cases hlist
    | scalar v => simp [typeSchema, hnull]
    | mapping fields => simp [typeSchema, nullType]
  have hunder : schemasUnder "type" type = [] := schemasUnder_eq_nil (by decide) type
  intro s hs
  simp only [heq, schemasIn, schemasInFields, hunder, List.append_nil, List.mem_singleton] at hs
  subst hs
  have hget : Fields.get? [("type", type)] "type" = some type := by simp [Fields.get?]
  refine ⟨fun types h => ?_, fun h => ?_, rfl, by simp [Fields.get?], by simp [Fields.get?],
    by simp [Fields.get?]⟩
  · rw [hget] at h
    cases h
    cases hlist
  · rw [hget] at h
    cases h
    exact hnull rfl

theorem isNormal_typeSchemas {types : List Value} (hflat : ∀ t ∈ types, t.isList = false) :
    ∀ s ∈ schemasInItems (typeSchemas types), IsNormal s := by
  induction types with
  | nil => exact fun s hs => nomatch hs
  | cons type rest ih =>
      have hrest := ih fun t ht => hflat t (List.mem_cons_of_mem _ ht)
      rw [typeSchemas]
      split
      · exact hrest
      · rename_i hnull
        intro s hs
        rcases List.mem_append.mp hs with hfirst | hmore
        · exact isNormal_typeSchema (hflat type (by simp)) hnull s hfirst
        · exact hrest s hmore

/-- The types that are brought down add no schemas but their alternatives. -/
theorem mem_schemasInFields_downgradeType {s : Fields Value}
    (h : s ∈ schemasInFields (downgradeType fields)) :
    s ∈ schemasInFields fields
      ∨ s ∈ schemasInItems (typeSchemas (Fields.itemsAt fields "type")) := by
  unfold downgradeType at h
  split at h
  · rename_i types htypes
    have hitems : Fields.itemsAt fields "type" = types := by
      simp [Fields.itemsAt, htypes, Value.asItems]
    have hnullable : ∀ {s}, s ∈ schemasInFields
        (if (properTypes types).length < types.length then
          Fields.set fields "nullable" (.bool true) else fields) → s ∈ schemasInFields fields := by
      intro s hs
      split at hs
      · exact schemasInFields_set_subset fields (by decide) _ hs
      · exact hs
    unfold withTypes at h
    dsimp only at h
    split at h
    · exact Or.inl (hnullable (schemasInFields_erase_subset _ _ h))
    · exact Or.inl (hnullable (schemasInFields_set_subset _ (by decide) _ h))
    · rcases mem_schemasInFields_set h with hany | hrest
      · refine Or.inr ?_
        rw [hitems]
        simpa [schemasUnder] using hany
      · exact Or.inl (hnullable (schemasInFields_erase_subset _ _ hrest))
  · refine Or.inl ?_
    split at h
    · exact schemasInFields_erase_subset _ _ (schemasInFields_set_subset _ (by decide) _ h)
    · exact h
  · exact Or.inl h

theorem schemasInFields_downgradeConst :
    schemasInFields (downgradeConst fields) ⊆ schemasInFields fields := by
  unfold downgradeConst
  split
  · exact List.Subset.trans (schemasInFields_set_subset _ (by decide) _)
      (schemasInFields_erase_subset _ _)
  · exact List.Subset.refl _

theorem schemasInFields_downgradeExamples :
    schemasInFields (downgradeExamples fields) ⊆ schemasInFields fields := by
  unfold downgradeExamples
  split
  · dsimp only
    split
    · split
      · exact schemasInFields_erase_subset _ _
      · exact List.Subset.trans (schemasInFields_set_subset _ (by decide) _)
          (schemasInFields_erase_subset _ _)
    · exact schemasInFields_erase_subset _ _
  · exact List.Subset.refl _

theorem schemasInFields_downgradeBound {exclusive bound : String}
    (hexclusive : exclusive ∉ holdingKeys) (hbound : bound ∉ holdingKeys) :
    schemasInFields (downgradeBound exclusive bound fields) ⊆ schemasInFields fields := by
  unfold downgradeBound
  split
  · split
    · exact List.Subset.trans (schemasInFields_set_subset _ hexclusive _)
        (schemasInFields_set_subset _ hbound _)
    · exact List.Subset.refl _
  · exact List.Subset.refl _

/-- Bringing a schema down keeps normal what is normal inside of it. -/
theorem gives_downgradeSchema : Gives downgradeSchema HasFlatTypes IsNormal := by
  intro fields hflat hinner s hs
  have hitems : Fields.itemsAt (mapInner downgradeSchema fields) "type"
      = Fields.itemsAt fields "type" := by
    rw [Fields.itemsAt, get?_mapInner (by decide), Fields.itemsAt]
  rcases List.mem_cons.mp hs with rfl | hs
  · refine isNormal_downgradeSchema ?_
    rw [HasFlatTypes, hitems]
    exact hflat
  · have htype : s ∈ schemasInFields (downgradeType (mapInner downgradeSchema fields)) :=
      schemasInFields_downgradeConst (schemasInFields_downgradeExamples
        (schemasInFields_downgradeBound (by decide) (by decide)
          (schemasInFields_downgradeBound (by decide) (by decide) hs)))
    rcases mem_schemasInFields_downgradeType htype with hold | hnew
    · exact hinner s hold
    · rw [hitems] at hnew
      exact isNormal_typeSchemas hflat s hnew

/-! ### The whole description -/

/-- **The schemas of a description**, at all places and on all levels. -/
def documentSchemas (fields : Fields Value) : List (Fields Value) :=
  (outerSchemas fields).flatMap schemasIn

theorem isNormal_mapDocument {content : Fields Value}
    (hflat : ∀ s ∈ documentSchemas content, HasFlatTypes s) :
    ∀ s ∈ documentSchemas (mapDocument downgradeSchema content), IsNormal s := by
  intro s hs
  obtain ⟨v, hv, hs⟩ := List.mem_flatMap.mp hs
  rw [outerSchemas_mapDocument] at hv
  obtain ⟨w, hw, rfl⟩ := List.mem_map.mp hv
  exact forall_schemasIn_mapSchema gives_downgradeSchema w
    (fun t ht => hflat t (List.mem_flatMap.mpr ⟨w, hw, ht⟩)) s hs

theorem mapDocument_eq_self_of_isNormal {content : Fields Value}
    (h : ∀ s ∈ documentSchemas content, IsNormal s) : mapDocument downgradeSchema content = content :=
  mapDocument_eq_self fun v hv => mapSchema_eq_self (P := IsNormal)
    (fun _ hnormal => downgradeSchema_eq_self hnormal) v
    fun s hs => h s (List.mem_flatMap.mpr ⟨v, hv, hs⟩)

/-! ### The canonical form -/

namespace CanonicalDocument

variable {d : CanonicalDocument}

theorem eq_paths_of_mem_fields (h : d.IsSorted) {v : Value} (hmem : ("paths", v) ∈ d.fields) :
    v = .mapping d.paths := by
  have hget := Fields.get?_of_mem (nodup_keys_fields d) hmem
  rw [get?_fields h (by decide), get?_fixedFields] at hget
  simpa [Fields.get?] using hget.symm

theorem eq_components_of_mem_fields (h : d.IsSorted) {v : Value}
    (hmem : ("components", v) ∈ d.fields) : v = .mapping d.components := by
  have hget := Fields.get?_of_mem (nodup_keys_fields d) hmem
  rw [get?_fields h (by decide), get?_fixedFields] at hget
  by_cases hempty : d.components = []
  · simp [Fields.get?, hempty] at hget
  · simpa [Fields.get?, hempty] using hget.symm

/-- The schemas of a canonical form are among those of the fields it is made of. -/
theorem outerSchemas_ofFields_subset (fields : Fields Value) :
    outerSchemas (ofFields fields).fields ⊆ outerSchemas fields := by
  have hpart : ∀ k, Fields.fieldsAt fields k = []
      ∨ ∃ part ∈ valuesAt k (.mapping fields), Fields.fieldsAt fields k = part.asFields := by
    intro k
    unfold Fields.fieldsAt
    cases hget : Fields.get? fields k with
    | none => exact Or.inl rfl
    | some part => exact Or.inr ⟨part, mem_valuesAt.mpr (Fields.mem_of_get? hget), rfl⟩
  intro s hs
  simp only [outerSchemas, List.mem_append, List.mem_flatMap] at hs ⊢
  rcases hs with ⟨paths, hpaths, item, hitem, hs⟩ | ⟨components, hcomponents, hs⟩
  · rw [eq_paths_of_mem_fields (isSorted_ofFields fields) (mem_valuesAt.mp hpaths)] at hitem
    rcases hpart "paths" with hnone | ⟨part, hmem, heq⟩
    · simp [ofFields, hnone, valuesOf, Value.asFields] at hitem
    · refine Or.inl ⟨part, hmem, item, ?_, hs⟩
      have hpaths : (ofFields fields).paths = part.asFields := heq
      rw [hpaths] at hitem
      exact hitem
  · rw [eq_components_of_mem_fields (isSorted_ofFields fields) (mem_valuesAt.mp hcomponents)] at hs
    rcases hpart "components" with hnone | ⟨part, hmem, heq⟩
    · simp [ofFields, hnone, componentSchemas, valuesAt, Value.asFields] at hs
    · refine Or.inr ⟨part, hmem, ?_⟩
      have hcomponents : (ofFields fields).components = part.asFields := heq
      rw [hcomponents] at hs
      exact hs

/-- A canonical form has no webhooks of its own. -/
theorem keepWebhooks_fields (h : d.IsSorted) : keepWebhooks d.fields = d.fields := by
  have hnone : Fields.get? d.fields "webhooks" = none :=
    Fields.get?_eq_none (notMem_keys_fields h (by decide) (by decide))
  rw [keepWebhooks, hnone]

end CanonicalDocument

theorem outerSchemas_keepWebhooks_subset (fields : Fields Value) :
    outerSchemas (keepWebhooks fields) ⊆ outerSchemas fields := by
  have hset : ∀ webhooks, outerSchemas (Fields.set fields "x-webhooks" webhooks)
      ⊆ outerSchemas fields := by
    intro webhooks
    have hsub : ∀ k, k ≠ "x-webhooks" →
        valuesAt k (.mapping (Fields.set fields "x-webhooks" webhooks))
          ⊆ valuesAt k (.mapping fields) := by
      intro k hk v hv
      rcases Fields.mem_set (mem_valuesAt.mp hv) with heq | hmem
      · exact absurd (congrArg Prod.fst heq) hk
      · exact mem_valuesAt.mpr hmem
    intro s hs
    simp only [outerSchemas, List.mem_append, List.mem_flatMap] at hs ⊢
    rcases hs with ⟨paths, hpaths, hs⟩ | ⟨components, hcomponents, hs⟩
    · exact Or.inl ⟨paths, hsub _ (by decide) hpaths, hs⟩
    · exact Or.inr ⟨components, hsub _ (by decide) hcomponents, hs⟩
  unfold keepWebhooks
  split
  · exact List.Subset.refl _
  · exact List.Subset.refl _
  · exact hset _

/--
**Descriptions of version 3.1 come into normal form.**  If no list of types holds a list, every
schema of the upgraded description is in normal form; and upgrading what came out once more, as
a description of version 3.1, changes nothing.
-/
theorem isNormal_upgrade_openapi31 (content : Fields Value)
    (hflat : ∀ s ∈ documentSchemas content, HasFlatTypes s) :
    (∀ s ∈ documentSchemas (upgrade ⟨.openapi31, content⟩).fields, IsNormal s)
      ∧ upgrade ⟨.openapi31, (upgrade ⟨.openapi31, content⟩).fields⟩
        = upgrade ⟨.openapi31, content⟩ := by
  have hnormal : ∀ s ∈ documentSchemas (upgrade ⟨.openapi31, content⟩).fields, IsNormal s := by
    intro s hs
    obtain ⟨v, hv, hs⟩ := List.mem_flatMap.mp hs
    refine isNormal_mapDocument hflat s (List.mem_flatMap.mpr ⟨v, ?_, hs⟩)
    exact outerSchemas_keepWebhooks_subset _ (CanonicalDocument.outerSchemas_ofFields_subset _ hv)
  have hsorted : (upgrade ⟨.openapi31, content⟩).IsSorted := CanonicalDocument.isSorted_ofFields _
  refine ⟨hnormal, ?_⟩
  calc upgrade ⟨.openapi31, (upgrade ⟨.openapi31, content⟩).fields⟩
      = .ofFields (keepWebhooks (upgrade ⟨.openapi31, content⟩).fields) := by
        rw [upgrade, CanonicalDocument.ofOpenapi31, mapDocument_eq_self_of_isNormal hnormal]
    _ = .ofFields (upgrade ⟨.openapi31, content⟩).fields := by
        rw [CanonicalDocument.keepWebhooks_fields hsorted]
    _ = upgrade ⟨.openapi31, content⟩ := CanonicalDocument.ofFields_fields hsorted

/--
A description with schemas of version 3.1 at three levels: a component with several types,
inside of it one whose constant is null, and a header with an exclusive bound.
-/
def nestedContent : Fields Value :=
  [("openapi", .string "3.1.0"),
    ("paths", .mapping []),
    ("components", .mapping
      [("schemas", .mapping
        [("Pet", .mapping
          [("type", .list [.string "object", .string "array", .string "null"]),
            ("properties", .mapping
              [("tag", .mapping [("type", .string "null"), ("const", .null)])])])]),
        ("headers", .mapping
          [("Limit", .mapping
            [("schema", .mapping
              [("exclusiveMaximum", .int 10),
                ("examples", .list [.int 1])])])])])]

theorem isNormal_nestedContent :
    (∀ s ∈ documentSchemas nestedContent, HasFlatTypes s)
      ∧ (∀ s ∈ documentSchemas (upgrade ⟨.openapi31, nestedContent⟩).fields, IsNormal s)
      ∧ upgrade ⟨.openapi31, (upgrade ⟨.openapi31, nestedContent⟩).fields⟩
        = upgrade ⟨.openapi31, nestedContent⟩ := by
  have hflat : ∀ s ∈ documentSchemas nestedContent, HasFlatTypes s := by decide
  exact ⟨hflat, isNormal_upgrade_openapi31 nestedContent hflat⟩

end ApiClientGen.Canonical
