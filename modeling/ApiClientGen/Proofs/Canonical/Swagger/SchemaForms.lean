/-
Schemas of version 2 in canonical form.

Three constructs are of version 2 alone: the type of a file, a flag for null that is an
extension, and a discriminator that is only a name.  Schemas come into the canonical form on
three routes.  Definitions, bodies and responses hand over whole schemas, which are changed on
all levels; parameters and headers carry keywords, of which the schema is picked, with its items
on a recursion of their own; the fields of a form are picked in the same way, each below its
name.  On every route all levels are changed, and rewriting references undoes none of it.
-/
import ApiClientGen.Proofs.Canonical.RewrittenPlaces
import ApiClientGen.Proofs.Canonical.Swagger.Integrity

namespace ApiClientGen.Canonical

open ApiClientGen.Document

/-! ### What stands under a key of a table that is built -/

section

variable {t u : Fields Value} {key k : String} {v w : Value}

@[simp] theorem valuesAt_nil (key : String) : valuesAt key (.mapping []) = [] := rfl

@[simp] theorem valuesAt_cons (key k : String) (v : Value) (t : Fields Value) :
    valuesAt key (.mapping ((k, v) :: t))
      = if k = key then v :: valuesAt key (.mapping t) else valuesAt key (.mapping t) := by
  by_cases h : k = key <;> simp [valuesAt, Value.asFields, h]

@[simp] theorem valuesAt_append (key : String) (t u : Fields Value) :
    valuesAt key (.mapping (t ++ u)) = valuesAt key (.mapping t) ++ valuesAt key (.mapping u) := by
  simp [valuesAt, Value.asFields]

theorem mem_valuesAt_set (h : w ∈ valuesAt key (.mapping (Fields.set t k v))) :
    (k = key ∧ w = v) ∨ w ∈ valuesAt key (.mapping t) := by
  rcases Fields.mem_set (mem_valuesAt.mp h) with heq | hmem
  · cases heq
    exact Or.inl ⟨rfl, rfl⟩
  · exact Or.inr (mem_valuesAt.mpr hmem)

/-- What stands under a key of fields that may be left out. -/
theorem mem_valuesAt_unless {c : Prop} [Decidable c]
    (h : w ∈ valuesAt key (.mapping (if c then [] else [(k, v)]))) : k = key ∧ w = v := by
  split at h
  · cases h
  · by_cases hk : k = key <;> simp_all

theorem mem_valuesAt_setIfSome {value? : Option Value} (hk : k ≠ key)
    (h : w ∈ valuesAt key (.mapping (Fields.setIfSome t k value?))) :
    w ∈ valuesAt key (.mapping t) := by
  cases value? with
  | none => exact h
  | some v => exact (mem_valuesAt_set h).resolve_left fun hkey => hk hkey.1

theorem mem_valuesAt_update (h : w ∈ valuesAt key (.mapping (Fields.update t u))) :
    w ∈ valuesAt key (.mapping t) ∨ w ∈ valuesAt key (.mapping u) :=
  (Fields.mem_update (mem_valuesAt.mp h)).imp mem_valuesAt.mpr mem_valuesAt.mpr

theorem mem_valuesAt_extended (hkey : isExtension key = false)
    (h : w ∈ valuesAt key (.mapping (Fields.update t (extensions u)))) :
    w ∈ valuesAt key (.mapping t) := by
  refine (mem_valuesAt_update h).resolve_right fun hext => ?_
  have hmem : key ∈ Fields.keys (extensions u) := Fields.mem_keys_of_mem (mem_valuesAt.mp hext)
  exact Swagger.notMem_keys_extensions u hkey hmem

theorem valuesAt_select {names : List String} (h : key ∉ names) :
    valuesAt key (.mapping (Fields.select t names)) = [] := by
  refine List.eq_nil_iff_forall_not_mem.mpr fun w hw => h ?_
  have hmem : key ∈ Fields.keys (Fields.select t names) := Fields.mem_keys_of_mem (mem_valuesAt.mp hw)
  exact (Fields.keys_select_sublist t names).subset hmem

end

end ApiClientGen.Canonical

namespace ApiClientGen.Canonical.Swagger

open ApiClientGen.Document ApiClientGen.Source

/-- **A schema with nothing that is of version 2 alone.** -/
structure IsConverted (schema : Fields Value) : Prop where
  /-- Its type is not that of a file. -/
  file : Fields.get? schema "type" ≠ some (.string "file")
  /-- It has no flag for null that is an extension. -/
  nullable : Fields.get? schema "x-nullable" = none
  /-- Its discriminator, if it has one, is not only a name. -/
  discriminator : ∀ name, Fields.get? schema "discriminator" ≠ some (.string name)

/-! ### One schema -/

section

variable (fields : Fields Value) {key : String}

theorem get?_convertNullable (hkey : key ∉ ["x-nullable", "nullable"]) :
    Fields.get? (convertNullable fields) key = Fields.get? fields key := by
  simp only [List.mem_cons, List.not_mem_nil, or_false, not_or] at hkey
  unfold convertNullable
  split
  · rw [Fields.get?_set_of_ne _ _ (Ne.symm hkey.2), Fields.get?_erase, if_neg (Ne.symm hkey.1)]
  · rfl

theorem get?_convertDiscriminator (hkey : key ≠ "discriminator") :
    Fields.get? (convertDiscriminator fields) key = Fields.get? fields key := by
  unfold convertDiscriminator
  split
  · exact Fields.get?_set_of_ne _ _ (Ne.symm hkey)
  · rfl

theorem type_convertFile : Fields.get? (convertFile fields) "type" ≠ some (.string "file") := by
  unfold convertFile
  split
  · rw [Fields.get?_set_of_ne _ _ (by decide), Fields.get?_set_self]
    decide
  · assumption

theorem xNullable_convertNullable : Fields.get? (convertNullable fields) "x-nullable" = none := by
  unfold convertNullable
  split
  · rw [Fields.get?_set_of_ne _ _ (by decide), Fields.get?_erase, if_pos rfl]
  · assumption

theorem discriminator_convertDiscriminator (name : String) :
    Fields.get? (convertDiscriminator fields) "discriminator" ≠ some (.string name) := by
  unfold convertDiscriminator
  split
  · rw [Fields.get?_set_self]
    intro heq
    cases heq
  · rename_i hno
    exact fun heq => hno name heq

theorem isConverted_convertSchema : IsConverted (convertSchema fields) where
  file := by
    rw [convertSchema, get?_convertDiscriminator _ (by decide), get?_convertNullable _ (by decide)]
    exact type_convertFile fields
  nullable := by
    rw [convertSchema, get?_convertDiscriminator _ (by decide)]
    exact xNullable_convertNullable _
  discriminator := discriminator_convertDiscriminator _

/-- Changing a schema adds none inside of it. -/
theorem schemasInFields_convertSchema_subset :
    schemasInFields (convertSchema fields) ⊆ schemasInFields fields := by
  have hfile : schemasInFields (convertFile fields) ⊆ schemasInFields fields := by
    unfold convertFile
    split
    · exact List.Subset.trans (schemasInFields_set_subset _ (by decide) _)
        (schemasInFields_set_subset _ (by decide) _)
    · exact List.Subset.refl _
  have hnullable : ∀ fields, schemasInFields (convertNullable fields) ⊆ schemasInFields fields := by
    intro fields
    unfold convertNullable
    split
    · exact List.Subset.trans (schemasInFields_set_subset _ (by decide) _)
        (schemasInFields_erase_subset _ _)
    · exact List.Subset.refl _
  have hdiscriminator : ∀ fields,
      schemasInFields (convertDiscriminator fields) ⊆ schemasInFields fields := by
    intro fields
    unfold convertDiscriminator
    split
    · exact schemasInFields_set_subset _ (by decide) _
    · exact List.Subset.refl _
  exact List.Subset.trans (hdiscriminator _) (List.Subset.trans (hnullable _) hfile)

end

/-- A change of schemas gives it to the schema around changed ones. -/
theorem gives_convertSchema : Gives convertSchema (fun _ => True) IsConverted := by
  intro fields _ hinner s hs
  rw [schemasIn, List.mem_cons] at hs
  rcases hs with rfl | hs
  · exact isConverted_convertSchema _
  · exact hinner s (schemasInFields_convertSchema_subset _ hs)

/-! ### Values that stand where schemas do -/

/-- No value among those that stand where schemas do has a schema of version 2 in it. -/
def Converted (schemas : List Value) : Prop := ∀ v ∈ schemas, ∀ s ∈ schemasIn v, IsConverted s

section

variable {vs ws : List Value} {v : Value}

@[simp] theorem converted_nil : Converted [] := List.forall_mem_nil _

@[simp] theorem converted_append : Converted (vs ++ ws) ↔ Converted vs ∧ Converted ws :=
  List.forall_mem_append

theorem converted_singleton : Converted [v] ↔ ∀ s ∈ schemasIn v, IsConverted s := by
  simp [Converted]

@[simp] theorem converted_flatMap {α : Type} {l : List α} {f : α → List Value} :
    Converted (l.flatMap f) ↔ ∀ x ∈ l, Converted (f x) := by
  simp only [Converted, List.mem_flatMap]
  exact ⟨fun h x hx v hv => h v ⟨x, hx, hv⟩, fun h v ⟨x, hx, hv⟩ => h x hx v hv⟩

/-- The values of a table that is made by converting each of another one. -/
theorem converted_mapValues {convert : Value → Value} {places : Value → List Value}
    (h : ∀ v, Converted (places (convert v))) (t : Fields Value) :
    Converted ((valuesOf (.mapping (Fields.mapValues convert t))).flatMap places) := by
  rw [converted_flatMap]
  intro v hv
  obtain ⟨key, hmem⟩ := mem_valuesOf.mp hv
  obtain ⟨e, -, heq⟩ := List.mem_map.mp hmem
  cases heq
  exact h e.2

theorem converted_mapSchema (v : Value) : Converted [mapSchema convertSchema v] :=
  converted_singleton.mpr (forall_schemasIn_mapSchema gives_convertSchema v fun _ _ => trivial)

/-- The keywords that a parameter carries hold schemas only below its items. -/
theorem converted_select_carriedItems (fields : Fields Value) :
    ∀ s ∈ schemasInFields (Fields.select (carriedItems fields) keywords), IsConverted s := by
  intro s hs
  obtain ⟨⟨key, v⟩, he, hs⟩ := mem_schemasInFields.mp hs
  obtain ⟨name, hname, hget⟩ := List.mem_filterMap.mp he
  obtain ⟨w, hw, heq⟩ := Option.map_eq_some_iff.mp hget
  cases heq
  by_cases hkey : key = "items"
  · have hitems : ∀ fields : Fields Value, (key, v) ∈ carriedItems fields →
        ∃ u, v = mapSchema convertSchema u := by
      intro fields
      induction fields with
      | nil => exact fun hmem => nomatch hmem
      | cons e rest ih =>
          intro hmem
          rw [carriedItems] at hmem
          rcases List.mem_cons.mp hmem with heq | hrest
          · cases heq
            rw [if_pos hkey]
            exact ⟨_, rfl⟩
          · exact ih hrest
    obtain ⟨u, rfl⟩ := hitems fields (Fields.mem_of_get? hw)
    have hconverted := converted_singleton.mp (converted_mapSchema u)
    cases u with
    | scalar u => cases hs
    | list us =>
        subst hkey
        simp [mapSchema, schemasUnder] at hs
    | mapping fields =>
        subst hkey
        exact hconverted s (by simpa [mapSchema, schemasUnder, schemasIn] using hs)
  · have hkeywords : ∀ name ∈ keywords, name ≠ "items" → name ∉ holdingKeys := by decide
    rw [schemasUnder_eq_nil (hkeywords key hname hkey)] at hs
    cases hs

theorem converted_schemaOf (fields : Fields Value) : Converted [.mapping (schemaOf fields)] := by
  rw [converted_singleton, schemasIn]
  intro s hs
  rcases List.mem_cons.mp hs with rfl | hs
  · exact isConverted_convertSchema _
  · exact converted_select_carriedItems fields s (schemasInFields_convertSchema_subset _ hs)

end

/-! ### One part of a description after the other -/

section

variable {fields : Fields Value}

theorem converted_contentFor {media : Fields Value} (mediaTypes : List String)
    (h : Converted (valuesAt "schema" (.mapping media))) :
    Converted (contentSchemas (.mapping (contentFor mediaTypes media))) := by
  rw [contentSchemas, converted_flatMap]
  intro v hv
  obtain ⟨key, hmem⟩ := mem_valuesOf.mp hv
  obtain ⟨mediaType, -, heq⟩ := List.mem_map.mp (Fields.mem_ofEntries hmem)
  cases heq
  exact h

theorem converted_convertParameter (parameter : Fields Value) :
    Converted (parameterSchemas (.mapping (convertParameter parameter))) := by
  unfold convertParameter
  split
  · simp [parameterSchemas]
  · have hfield : ∀ key w, isExtension key = false → key ∉ ["style", "explode"] →
        key ∉ ["name", "in", "description", "required", "allowEmptyValue"] →
        w ∈ valuesAt key (.mapping (Fields.update (Fields.update
          (Fields.set (Fields.select parameter
            ["name", "in", "description", "required", "allowEmptyValue"]) "schema"
            (.mapping (schemaOf parameter))) (styleFields parameter)) (extensions parameter))) →
        "schema" = key ∧ w = .mapping (schemaOf parameter) := by
      intro key w hext hstyle hnames hw
      rcases mem_valuesAt_update (mem_valuesAt_extended hext hw) with hw | hw
      · refine (mem_valuesAt_set hw).resolve_right fun hselected => ?_
        rw [valuesAt_select hnames] at hselected
        cases hselected
      · have hmem : key ∈ Fields.keys (styleFields parameter) :=
          Fields.mem_keys_of_mem (mem_valuesAt.mp hw)
        exact absurd (keys_styleFields_subset parameter hmem) hstyle
    rw [parameterSchemas, converted_append, converted_flatMap]
    refine ⟨fun w hw => ?_, fun w hw => ?_⟩
    · obtain ⟨-, rfl⟩ := hfield "schema" w (by decide) (by decide) (by decide) hw
      exact converted_singleton.mp (converted_schemaOf parameter)
    · exact absurd (hfield "content" w (by decide) (by decide) (by decide) hw).1 (by decide)

theorem converted_bodyOf (parameter : Fields Value) (consumes : List String) :
    Converted (requestBodySchemas (.mapping (bodyOf parameter consumes))) := by
  rw [requestBodySchemas, converted_flatMap]
  intro content hcontent
  have hbody : content ∈ valuesAt "content" (.mapping [("content", .mapping (contentFor consumes
      [("schema", mapSchema convertSchema ((Fields.get? parameter "schema").getD (.mapping [])))]))]) := by
    have hwritten := mem_valuesAt_extended (by decide) hcontent
    split at hwritten
    · exact mem_valuesAt_setIfSome (by decide)
        ((mem_valuesAt_set hwritten).resolve_left fun h => absurd h.1 (by decide))
    · exact mem_valuesAt_setIfSome (by decide) hwritten
  simp only [valuesAt_cons, valuesAt_nil, if_true, List.mem_singleton] at hbody
  subst hbody
  refine converted_contentFor consumes ?_
  simpa using converted_mapSchema _

theorem converted_formProperty (parameter : Fields Value) :
    ∀ s ∈ schemasIn (formProperty parameter), IsConverted s := by
  have hschema := converted_singleton.mp (converted_schemaOf parameter)
  rw [formProperty]
  cases hdescription : Fields.get? parameter "description" with
  | none => exact hschema
  | some v =>
      intro s hs
      rcases List.mem_cons.mp hs with rfl | hs
      · have hown : IsConverted (schemaOf parameter) := hschema _ (List.mem_cons_self ..)
        exact {
          file := by
            rw [Fields.setIfSome, Fields.get?_set_of_ne _ _ (by decide)]
            exact hown.file
          nullable := by
            rw [Fields.setIfSome, Fields.get?_set_of_ne _ _ (by decide)]
            exact hown.nullable
          discriminator := by
            rw [Fields.setIfSome, Fields.get?_set_of_ne _ _ (by decide)]
            exact hown.discriminator }
      · exact hschema s (List.mem_cons_of_mem _ (schemasInFields_set_subset _ (by decide) _ hs))

theorem schemasInTable_ofEntries {entries : List (String × Value)} {s : Fields Value}
    (h : s ∈ schemasInTable (Fields.ofEntries entries)) : ∃ e ∈ entries, s ∈ schemasIn e.2 := by
  have hmem : ∀ t : List (String × Value), s ∈ schemasInTable t → ∃ e ∈ t, s ∈ schemasIn e.2 := by
    intro t
    induction t with
    | nil => exact fun hs => nomatch hs
    | cons e rest ih =>
        intro hs
        rcases List.mem_append.mp hs with hfirst | hrest
        · exact ⟨e, List.mem_cons_self .., hfirst⟩
        · obtain ⟨f, hf, hs⟩ := ih hrest
          exact ⟨f, List.mem_cons_of_mem _ hf, hs⟩
  obtain ⟨e, he, hs⟩ := hmem _ h
  exact ⟨e, Fields.mem_ofEntries he, hs⟩

/-- The schema of a form is made of its fields, and converted as each of them is. -/
theorem converted_formOf (form : List (Fields Value)) (consumes : List String) :
    Converted (requestBodySchemas (.mapping (formOf form consumes))) := by
  have hschema : ∀ required : Fields Value, (∀ e ∈ required, e.1 = "required") →
      ∀ s ∈ schemasIn (.mapping ([("type", .string "object"), ("properties", .mapping
        (Fields.ofEntries ((namedFields form).map fun p => (p.1, formProperty p.2))))] ++ required)),
        IsConverted s := by
    intro required hrequired s hs
    rw [schemasIn, List.mem_cons] at hs
    rcases hs with rfl | hs
    · have hnone : ∀ key, key ≠ "required" → Fields.get? required key = none := by
        intro key hkey
        refine Fields.get?_eq_none fun hmem => hkey ?_
        obtain ⟨e, he, rfl⟩ := List.mem_map.mp hmem
        exact hrequired e he
      exact {
        file := by simp [Fields.get?]
        nullable := by simp [Fields.get?, hnone]
        discriminator := by simp [Fields.get?, hnone] }
    · obtain ⟨e, he, hs⟩ := mem_schemasInFields.mp hs
      rcases List.mem_append.mp he with he | he
      · simp only [List.mem_cons, List.not_mem_nil, or_false] at he
        rcases he with rfl | rfl
        · cases hs
        · simp only [schemasUnder, if_true] at hs
          obtain ⟨f, hf, hs⟩ := schemasInTable_ofEntries hs
          obtain ⟨p, -, rfl⟩ := List.mem_map.mp hf
          exact converted_formProperty p.2 s hs
      · rw [hrequired e he, schemasUnder_eq_nil (by decide)] at hs
        cases hs
  rw [requestBodySchemas, converted_flatMap]
  intro content hcontent
  unfold formOf at hcontent
  dsimp only at hcontent
  rw [valuesAt_append] at hcontent
  rcases List.mem_append.mp hcontent with hcontent | hcontent
  · simp only [valuesAt_cons, valuesAt_nil, if_true, List.mem_singleton] at hcontent
    subst hcontent
    simp only [contentSchemas, valuesOf, Value.asFields, List.map_cons, List.map_nil,
      List.flatMap_cons, List.flatMap_nil, List.append_nil, valuesAt_cons, valuesAt_nil, if_true,
      converted_singleton]
    refine hschema _ fun e he => ?_
    split at he
    · cases he
    · rw [List.mem_singleton.mp he]
  · split at hcontent
    · cases hcontent
    · simp at hcontent

/-! ### Responses -/

theorem converted_convertHeader (header : Value) :
    Converted (parameterSchemas (convertHeader header)) := by
  have hfield : ∀ key w, "description" ≠ key →
      w ∈ valuesAt key (convertHeader header) →
        "schema" = key ∧ w = .mapping (schemaOf header.asFields) := by
    intro key w hkey hw
    have hw := mem_valuesAt_setIfSome hkey hw
    by_cases hschema : "schema" = key <;> simp_all
  rw [parameterSchemas, converted_append, converted_flatMap]
  refine ⟨fun w hw => ?_, fun w hw => ?_⟩
  · obtain ⟨-, rfl⟩ := hfield "schema" w (by decide) hw
    exact converted_singleton.mp (converted_schemaOf _)
  · exact absurd (hfield "content" w (by decide) hw).1 (by decide)

theorem converted_withExample {content : Fields Value}
    (h : Converted (contentSchemas (.mapping content))) (mediaType : String) (example? : Value) :
    Converted (contentSchemas (.mapping (withExample content mediaType example?))) := by
  rw [contentSchemas, converted_flatMap] at h ⊢
  intro media hmedia
  obtain ⟨key, hmem⟩ := mem_valuesOf.mp hmedia
  rcases Fields.mem_set hmem with heq | hold
  · cases heq
    intro w hw
    have hw := (mem_valuesAt_set hw).resolve_left fun hkey => absurd hkey.1 (by decide)
    obtain ⟨v, hv, hin⟩ : ∃ v, Fields.get? content mediaType = some v ∧ ("schema", w) ∈ v.asFields := by
      rw [mem_valuesAt, Value.asFields, Fields.fieldsAt] at hw
      cases hget : Fields.get? content mediaType with
      | none => simp [hget] at hw
      | some v => exact ⟨v, rfl, by simpa [hget] using hw⟩
    exact h v (mem_valuesOf.mpr ⟨_, Fields.mem_of_get? hv⟩) w (mem_valuesAt.mpr hin)
  · exact h media (mem_valuesOf.mpr ⟨key, hold⟩)

theorem converted_withExamples (examples : Fields Value) :
    ∀ {content : Fields Value}, Converted (contentSchemas (.mapping content)) →
      Converted (contentSchemas
        (.mapping (examples.foldl (fun acc e => withExample acc e.1 e.2) content))) := by
  induction examples with
  | nil => exact id
  | cons e rest ih => exact fun h => ih (converted_withExample h e.1 e.2)

/-- The content of a response with its schema, before the examples are written. -/
theorem converted_responseContent (produces : List String) (response : Fields Value) :
    Converted (contentSchemas (.mapping
      (match Fields.get? response "schema" with
        | some (.mapping schema) =>
          contentFor produces [("schema", mapSchema convertSchema (.mapping schema))]
        | _ => []))) := by
  split
  · refine converted_contentFor produces ?_
    simpa using converted_mapSchema _
  · exact converted_nil

theorem converted_convertResponse (produces : List String) (response : Value) :
    Converted (responseSchemas (convertResponse produces response)) := by
  cases response with
  | scalar s => exact converted_nil
  | list vs => exact converted_nil
  | mapping response =>
      rw [convertResponse]
      cases Fields.get? response "$ref" with
      | some ref => simp [responseSchemas]
      | none =>
          have hexamples := converted_withExamples (Fields.fieldsAt response "examples")
            (converted_responseContent produces response)
          dsimp only
          rw [responseSchemas, converted_append, converted_flatMap, converted_flatMap]
          refine ⟨fun content hin => ?_, fun headers hin => ?_⟩
          · have hwritten := mem_valuesAt_extended (by decide) hin
            rw [valuesAt_append, valuesAt_append, List.mem_append, List.mem_append] at hwritten
            rcases hwritten with (hdescription | hcontent) | hheaders
            · simp at hdescription
            · obtain ⟨-, rfl⟩ := mem_valuesAt_unless hcontent
              exact hexamples
            · exact absurd (mem_valuesAt_unless hheaders).1 (by decide)
          · have hwritten := mem_valuesAt_extended (by decide) hin
            rw [valuesAt_append, valuesAt_append, List.mem_append, List.mem_append] at hwritten
            rcases hwritten with (hdescription | hcontent) | hheaders
            · simp at hdescription
            · exact absurd (mem_valuesAt_unless hcontent).1 (by decide)
            · obtain ⟨-, rfl⟩ := mem_valuesAt_unless hheaders
              exact converted_mapValues converted_convertHeader _

/-- Responses by code or name. -/
theorem converted_responseTable (produces : List String) (responses : Fields Value) :
    Converted (responseTableSchemas
      (.mapping (Fields.mapValues (convertResponse produces) responses))) :=
  converted_mapValues (converted_convertResponse produces) responses

/-! ### Operations and paths -/

theorem converted_requestBody? {consumes : List String} {entries : List Entry} {body : Fields Value}
    (h : requestBody? consumes entries = some body) :
    Converted (requestBodySchemas (.mapping body)) := by
  unfold requestBody? at h
  dsimp only at h
  split at h
  · obtain ⟨e, -, rfl⟩ := Option.map_eq_some_iff.mp h
    unfold bodyOfEntry
    split
    · simp [requestBodySchemas]
    · exact converted_bodyOf e.resolved consumes
  · cases h
    exact converted_formOf _ consumes

theorem converted_convertOperation (spec : Fields Value) (ofPath : List Value)
    (operation : Fields Value) :
    Converted (operationSchemas (.mapping (convertOperation spec ofPath operation))) := by
  -- Each of the three parts that have schemas is written once, and selected or extended by none.
  have hpart : ∀ key w, isExtension key = false →
      key ∉ ["tags", "summary", "description", "externalDocs", "operationId", "deprecated",
        "security"] →
      w ∈ valuesAt key (.mapping (convertOperation spec ofPath operation)) →
      (key = "requestBody" ∧ Converted (requestBodySchemas w))
        ∨ (key = "parameters" ∧ Converted (parameterListSchemas w))
        ∨ (key = "responses" ∧ Converted (responseTableSchemas w)) := by
    intro key w hext hselected hw
    have hw := mem_valuesAt_extended hext hw
    rw [valuesAt_append, valuesAt_append, valuesAt_append, valuesAt_select hselected] at hw
    simp only [List.nil_append, List.mem_append] at hw
    rcases hw with (hbody | hparameters) | hresponses
    · rw [mem_valuesAt, Value.asFields, Option.mem_toList, Option.map_eq_some_iff] at hbody
      obtain ⟨body, hbody, heq⟩ := hbody
      cases heq
      exact Or.inl ⟨rfl, converted_requestBody? hbody⟩
    · obtain ⟨rfl, rfl⟩ := mem_valuesAt_unless hparameters
      refine Or.inr (Or.inl ⟨rfl, converted_flatMap.mpr fun v hv => ?_⟩)
      obtain ⟨e, -, rfl⟩ := List.mem_map.mp hv
      exact converted_convertParameter e.written
    · by_cases hkey : "responses" = key
      · subst hkey
        simp only [valuesAt_cons, valuesAt_nil, if_true, List.mem_singleton] at hresponses
        subst hresponses
        exact Or.inr (Or.inr ⟨rfl, converted_responseTable _ _⟩)
      · simp [hkey] at hresponses
  rw [operationSchemas, converted_append, converted_append, converted_flatMap, converted_flatMap,
    converted_flatMap]
  refine ⟨⟨fun w hw => ?_, fun w hw => ?_⟩, fun w hw => ?_⟩
  · simpa using hpart "parameters" w (by decide) (by decide) hw
  · simpa using hpart "requestBody" w (by decide) (by decide) hw
  · simpa using hpart "responses" w (by decide) (by decide) hw

theorem converted_convertPathItem (spec item : Fields Value) :
    Converted (pathItemSchemas (.mapping (convertPathItem spec item))) := by
  have hpart : ∀ key w, isExtension key = false →
      w ∈ valuesAt key (.mapping (convertPathItem spec item)) →
      key ∈ methods ∧ Converted (operationSchemas w) := by
    intro key w hext hw
    have hw := mem_valuesAt.mp (mem_valuesAt_extended hext hw)
    obtain ⟨method, hmethod, heq⟩ := List.mem_filterMap.mp hw
    split at heq
    · cases heq
      exact ⟨hmethod, converted_convertOperation spec _ _⟩
    · cases heq
  have hkeys : ∀ key ∈ operationKeys, isExtension key = false := by decide
  rw [pathItemSchemas, converted_append, converted_flatMap, converted_flatMap]
  refine ⟨fun key hkey => converted_flatMap.mpr fun w hw => (hpart key w (hkeys key hkey) hw).2,
    fun w hw => ?_⟩
  exact absurd (hpart "parameters" w (by decide) hw).1 (by decide)

/-! ### Components, and the whole description -/

theorem converted_components (spec : Fields Value) :
    Converted (componentSchemas (.mapping (components spec))) := by
  have hsection : ∀ key w, w ∈ valuesAt key (.mapping (components spec)) →
      w = .mapping (Fields.fieldsAt (components spec) key) :=
    fun key w hw => eq_fieldsAt_of_mem_components (mem_valuesAt.mp hw)
  simp only [componentSchemas, converted_append, converted_flatMap]
  refine ⟨⟨⟨⟨fun w hw => ?_, fun w hw => ?_⟩, fun w hw => ?_⟩, fun w hw v hv => ?_⟩, fun w hw => ?_⟩
  · rw [hsection "schemas" w hw, fieldsAt_components_schemas]
    have hschemas : Converted ((valuesOf (.mapping (Fields.mapValues (mapSchema convertSchema)
        (Fields.fieldsAt spec "definitions")))).flatMap fun v => [v]) :=
      converted_mapValues converted_mapSchema _
    rwa [List.flatMap_singleton'] at hschemas
  · rw [hsection "parameters" w hw, fieldsAt_components_parameters, parameterTableSchemas,
      converted_flatMap]
    intro v hv
    obtain ⟨key, hmem⟩ := mem_valuesOf.mp hv
    obtain ⟨p, -, heq⟩ := List.mem_map.mp hmem
    cases heq
    exact converted_convertParameter p.2
  · rw [hsection "responses" w hw, fieldsAt_components_responses]
    exact converted_responseTable _ _
  · rw [hsection "requestBodies" w hw, fieldsAt_components_requestBodies] at hv
    obtain ⟨key, hmem⟩ := mem_valuesOf.mp hv
    obtain ⟨p, -, heq⟩ := List.mem_filterMap.mp hmem
    obtain ⟨body, hbody, heq⟩ := Option.map_eq_some_iff.mp heq
    cases heq
    unfold sharedBody? at hbody
    split at hbody
    · cases hbody
      exact converted_bodyOf p.2 _
    · split at hbody
      · cases hbody
        exact converted_formOf _ _
      · cases hbody
  · have hmem : "headers" ∈ Fields.keys (components spec) :=
      Fields.mem_keys_of_mem (mem_valuesAt.mp hw)
    exact absurd ((keys_components_sublist spec).subset hmem) (by decide)

theorem converted_convert (spec : Fields Value) : Converted (outerSchemas (convert spec)) := by
  have hpart : ∀ key w, isExtension key = false → key ≠ "externalDocs" →
      w ∈ valuesAt key (.mapping (convert spec)) → (key, w) ∈ [
        ("info", .mapping (Fields.fieldsAt spec "info")),
        ("servers", .list (servers spec)),
        ("paths", .mapping (paths spec)),
        ("components", .mapping (components spec)),
        ("security", .list (Fields.itemsAt spec "security")),
        ("tags", .list (Fields.itemsAt spec "tags"))] := by
    intro key w hext hdocs hw
    unfold convert at hw
    dsimp only at hw
    split at hw
    · exact mem_valuesAt.mp (mem_valuesAt_extended hext
        ((mem_valuesAt_set hw).resolve_left fun h => hdocs h.1.symm))
    · exact mem_valuesAt.mp (mem_valuesAt_extended hext hw)
  rw [outerSchemas, converted_append, converted_flatMap, converted_flatMap]
  refine ⟨fun w hw => converted_flatMap.mpr fun v hv => ?_, fun w hw => ?_⟩
  · have hw := hpart "paths" w (by decide) (by decide) hw
    obtain rfl : w = .mapping (paths spec) := by simpa using hw
    obtain ⟨path, hmem⟩ := mem_valuesOf.mp hv
    obtain ⟨p, -, heq⟩ := List.mem_filterMap.mp hmem
    split at heq
    · cases heq
      exact converted_convertPathItem spec _
    · cases heq
  · have hw := hpart "components" w (by decide) (by decide) hw
    obtain rfl : w = .mapping (components spec) := by simpa using hw
    exact converted_components spec

end

/-- References in canonical form bring no construct of version 2 back. -/
theorem IsConverted.canonicalRefFields {s : Fields Value} (h : IsConverted s) :
    IsConverted (canonicalRefFields s) where
  file := by
    rw [get?_canonicalRefFields]
    intro heq
    obtain ⟨v, hv, hfile⟩ := Option.map_eq_some_iff.mp heq
    cases v with
    | scalar v => cases v <;> simp_all [canonicalRefAt, h.file]
    | list vs => cases hfile
    | mapping fields => cases hfile
  nullable := by rw [get?_canonicalRefFields, h.nullable, Option.map_none]
  discriminator name := by
    rw [get?_canonicalRefFields]
    intro heq
    obtain ⟨v, hv, hname⟩ := Option.map_eq_some_iff.mp heq
    cases v with
    | scalar v => cases v <;> simp_all [canonicalRefAt, h.discriminator]
    | list vs => cases hname
    | mapping fields => cases hname

/--
**Descriptions of version 2 lose what is of version 2 alone.**  No schema of the canonical form,
at any place and on any level, has the type of a file, a flag for null that is an extension, or a
discriminator that is only a name.
-/
theorem isConverted_upgrade_swagger2 (content : Fields Value) :
    ∀ s ∈ documentSchemas (upgrade ⟨.swagger2, content⟩).fields, IsConverted s := by
  intro s hs
  obtain ⟨v, hv, hs⟩ := List.mem_flatMap.mp hs
  have houter : v ∈ outerSchemas (canonicalRefFields (convert content)) :=
    CanonicalDocument.outerSchemas_ofFields_subset _ hv
  obtain ⟨r, hr, rfl⟩ := exists_of_mem_documentSchemas_canonicalRefFields
    (List.mem_flatMap.mpr ⟨v, houter, hs⟩)
  obtain ⟨u, hu, hr⟩ := List.mem_flatMap.mp hr
  exact (converted_convert content u hu r hr).canonicalRefFields

/--
A description of version 2 with all that is of version 2 alone: a discriminator in a definition,
inside of it a file that may be null, and a file among the fields of a form.
-/
def photoContent : Fields Value :=
  [("swagger", .string "2.0"),
    ("definitions", .mapping
      [("Pet", .mapping
        [("discriminator", .string "kind"),
          ("properties", .mapping
            [("photo", .mapping [("type", .string "file"), ("x-nullable", .bool true)])])])]),
    ("paths", .mapping
      [("/photos", .mapping
        [("post", .mapping
          [("parameters", .list
            [.mapping
              [("name", .string "photo"), ("in", .string "formData"),
                ("type", .string "file")]])])])])]

/-- What the file that may be null is in canonical form. -/
def photoSchema : Fields Value :=
  [("type", .string "string"), ("format", .string "binary"), ("nullable", .bool true)]

theorem isConverted_photoContent :
    photoSchema ∈ documentSchemas (upgrade ⟨.swagger2, photoContent⟩).fields
      ∧ IsConverted photoSchema := by
  have hmem : photoSchema ∈ documentSchemas (upgrade ⟨.swagger2, photoContent⟩).fields := by
    decide +kernel
  exact ⟨hmem, isConverted_upgrade_swagger2 photoContent photoSchema hmem⟩

end ApiClientGen.Canonical.Swagger
