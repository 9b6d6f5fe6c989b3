/-
Where the schemas of a description stand.

The schemas of a description are listed place by place: those of parameters, headers, request
bodies and responses, of operations, paths and components.  A change of schemas is then what
its name says: the schemas of the changed description are the schemas of the description, each
of them changed, and a change that leaves every schema alone leaves the description alone.
Both are shown for one kind of part after the other, so that a place that is forgotten on the
way shows where it is.
-/
import Mathlib.Data.List.Nodup
import ApiClientGen.Canonical.Schemas
import ApiClientGen.Proofs.Document.Tables

namespace ApiClientGen.Canonical

open ApiClientGen.Document

/-! ### Parts of values -/

/-- The values that stand under a key of a mapping. -/
def valuesAt (key : String) (v : Value) : List Value :=
  (v.asFields.filter fun e => e.1 = key).map Prod.snd

/-- The values of a mapping. -/
def valuesOf (v : Value) : List Value := v.asFields.map Prod.snd

theorem mem_valuesAt {key : String} {v w : Value} : w ∈ valuesAt key v ↔ (key, w) ∈ v.asFields := by
  simp [valuesAt]

theorem valuesAt_modify (t : Fields Value) (key k : String) (f : Value → Value) :
    valuesAt key (.mapping (Fields.modify t k f))
      = if key = k then (valuesAt key (.mapping t)).map f else valuesAt key (.mapping t) := by
  induction t with
  | nil => simp [valuesAt, Value.asFields, Fields.modify]
  | cons e t ih =>
      simp only [valuesAt, Value.asFields, Fields.modify, List.map_cons] at ih ⊢
      by_cases hk : key = k
      · by_cases he : e.1 = k <;> simp_all
      · by_cases he : e.1 = k
        · have hkey : e.1 ≠ key := fun h => hk (h ▸ he)
          simp_all
        · by_cases hkey : e.1 = key <;> simp_all

theorem valuesAt_modify_self (t : Fields Value) (key : String) (f : Value → Value) :
    valuesAt key (.mapping (Fields.modify t key f)) = (valuesAt key (.mapping t)).map f := by
  rw [valuesAt_modify, if_pos rfl]

theorem valuesAt_modify_of_ne (t : Fields Value) {key k : String} (h : key ≠ k)
    (f : Value → Value) :
    valuesAt key (.mapping (Fields.modify t k f)) = valuesAt key (.mapping t) := by
  rw [valuesAt_modify, if_neg h]

theorem valuesAt_modify_each {keys : List String} (hnodup : keys.Nodup) (t : Fields Value)
    (key : String) (f : Value → Value) :
    valuesAt key (.mapping (keys.foldl (fun acc k => Fields.modify acc k f) t))
      = if key ∈ keys then (valuesAt key (.mapping t)).map f else valuesAt key (.mapping t) := by
  induction keys generalizing t with
  | nil => simp
  | cons k keys ih =>
      obtain ⟨hk, hkeys⟩ := List.nodup_cons.mp hnodup
      rw [List.foldl_cons, ih hkeys]
      by_cases hkey : key = k
      · subst hkey
        rw [if_neg hk, if_pos (List.mem_cons_self ..), valuesAt_modify_self]
      · simp only [valuesAt_modify_of_ne t hkey, List.mem_cons, hkey, false_or]

/-- A change of what stands under a key that leaves all of it alone. -/
theorem modify_eq_self {t : Fields Value} {key : String} {f : Value → Value}
    (h : ∀ v ∈ valuesAt key (.mapping t), f v = v) : Fields.modify t key f = t := by
  have hsame : ∀ e ∈ t, (if e.1 = key then (e.1, f e.2) else e) = e := by
    intro e he
    by_cases hkey : e.1 = key
    · rw [if_pos hkey, h e.2 (mem_valuesAt.mpr (hkey ▸ he))]
    · rw [if_neg hkey]
  exact (List.map_congr_left hsame).trans (List.map_id t)

theorem modify_each_eq_self {keys : List String} {t : Fields Value} {f : Value → Value}
    (h : ∀ key ∈ keys, ∀ v ∈ valuesAt key (.mapping t), f v = v) :
    keys.foldl (fun acc k => Fields.modify acc k f) t = t := by
  induction keys with
  | nil => rfl
  | cons k keys ih =>
      rw [List.foldl_cons, modify_eq_self (h k (by simp))]
      exact ih fun key hkey => h key (List.mem_cons_of_mem _ hkey)

theorem valuesOf_eachValue (f : Value → Value) (v : Value) :
    valuesOf (eachValue f v) = (valuesOf v).map f := by
  cases v <;> simp [valuesOf, eachValue, Value.asFields, Fields.mapValues]

theorem eachValue_eq_self {f : Value → Value} {v : Value} (h : ∀ w ∈ valuesOf v, f w = w) :
    eachValue f v = v := by
  cases v with
  | scalar s => rfl
  | list vs => rfl
  | mapping fields =>
      have hsame : ∀ e ∈ fields, (e.1, f e.2) = e := fun e he =>
        Prod.ext rfl (h e.2 (List.mem_map_of_mem he))
      exact congrArg Value.mapping ((List.map_congr_left hsame).trans (List.map_id fields))

theorem asItems_eachItem (f : Value → Value) (v : Value) :
    (eachItem f v).asItems = v.asItems.map f := by
  cases v <;> rfl

theorem eachItem_eq_self {f : Value → Value} {v : Value} (h : ∀ w ∈ v.asItems, f w = w) :
    eachItem f v = v := by
  cases v with
  | scalar s => rfl
  | mapping fields => rfl
  | list vs => exact congrArg Value.list ((List.map_congr_left h).trans (List.map_id vs))

/-! ### The places of schemas -/

/-- The schemas of contents by media type. -/
def contentSchemas (v : Value) : List Value := (valuesOf v).flatMap (valuesAt "schema")

/-- The schemas of a parameter or a header: its own, and those of its contents. -/
def parameterSchemas (v : Value) : List Value :=
  valuesAt "schema" v ++ (valuesAt "content" v).flatMap contentSchemas

/-- The schemas of the parameters in a list. -/
def parameterListSchemas (v : Value) : List Value := v.asItems.flatMap parameterSchemas

/-- The schemas of parameters or headers by name. -/
def parameterTableSchemas (v : Value) : List Value := (valuesOf v).flatMap parameterSchemas

/-- The schemas of a response: those of its contents, and those of its headers. -/
def responseSchemas (v : Value) : List Value :=
  (valuesAt "content" v).flatMap contentSchemas
    ++ (valuesAt "headers" v).flatMap parameterTableSchemas

/-- The schemas of responses by code or name. -/
def responseTableSchemas (v : Value) : List Value := (valuesOf v).flatMap responseSchemas

/-- The schemas of a request body. -/
def requestBodySchemas (v : Value) : List Value := (valuesAt "content" v).flatMap contentSchemas

/-- The schemas of an operation. -/
def operationSchemas (v : Value) : List Value :=
  (valuesAt "parameters" v).flatMap parameterListSchemas
    ++ (valuesAt "requestBody" v).flatMap requestBodySchemas
    ++ (valuesAt "responses" v).flatMap responseTableSchemas

/-- The keys under which a path has its operations. -/
def operationKeys : List String :=
  ["get", "put", "post", "delete", "options", "head", "patch", "trace"]

/-- The schemas of a path: those of its operations, and those of its own parameters. -/
def pathItemSchemas (v : Value) : List Value :=
  (operationKeys.flatMap fun key => (valuesAt key v).flatMap operationSchemas)
    ++ (valuesAt "parameters" v).flatMap parameterListSchemas

/-- The schemas of the components. -/
def componentSchemas (v : Value) : List Value :=
  (valuesAt "schemas" v).flatMap valuesOf
    ++ (valuesAt "parameters" v).flatMap parameterTableSchemas
    ++ (valuesAt "responses" v).flatMap responseTableSchemas
    ++ (valuesAt "requestBodies" v).flatMap (fun bodies => (valuesOf bodies).flatMap requestBodySchemas)
    ++ (valuesAt "headers" v).flatMap parameterTableSchemas

/-- The schemas of a description that do not stand inside of other schemas. -/
def outerSchemas (fields : Fields Value) : List Value :=
  (valuesAt "paths" (.mapping fields)).flatMap (fun paths => (valuesOf paths).flatMap pathItemSchemas)
    ++ (valuesAt "components" (.mapping fields)).flatMap componentSchemas

/-! ### The schemas of a changed description are changed -/

section

variable (change : Fields Value → Fields Value) (v : Value)

theorem contentSchemas_mapContent :
    contentSchemas (mapContent change v) = (contentSchemas v).map (mapSchema change) := by
  have hmedia : ∀ media, valuesAt "schema"
      (changed (fun t => Fields.modify t "schema" (mapSchema change)) media)
        = (valuesAt "schema" media).map (mapSchema change) := by
    intro media
    cases media with
    | scalar s => rfl
    | list vs => rfl
    | mapping fields => exact valuesAt_modify_self fields _ _
  simp only [contentSchemas, mapContent, valuesOf_eachValue, List.flatMap_map, List.map_flatMap,
    hmedia]

theorem parameterSchemas_mapParameter :
    parameterSchemas (mapParameter change v) = (parameterSchemas v).map (mapSchema change) := by
  cases v with
  | scalar s => rfl
  | list vs => rfl
  | mapping fields =>
      simp [parameterSchemas, mapParameter, changed, valuesAt_modify, List.flatMap_map,
        List.map_flatMap, contentSchemas_mapContent]

theorem parameterListSchemas_map :
    parameterListSchemas (eachItem (mapParameter change) v)
      = (parameterListSchemas v).map (mapSchema change) := by
  simp only [parameterListSchemas, asItems_eachItem, List.flatMap_map, List.map_flatMap,
    parameterSchemas_mapParameter]

theorem parameterTableSchemas_map :
    parameterTableSchemas (eachValue (mapParameter change) v)
      = (parameterTableSchemas v).map (mapSchema change) := by
  simp only [parameterTableSchemas, valuesOf_eachValue, List.flatMap_map, List.map_flatMap,
    parameterSchemas_mapParameter]

theorem responseSchemas_mapResponse :
    responseSchemas (mapResponse change v) = (responseSchemas v).map (mapSchema change) := by
  cases v with
  | scalar s => rfl
  | list vs => rfl
  | mapping fields =>
      simp [responseSchemas, mapResponse, mapHeaders, changed, valuesAt_modify, List.flatMap_map,
        List.map_flatMap, contentSchemas_mapContent, parameterTableSchemas_map]

theorem responseTableSchemas_map :
    responseTableSchemas (eachValue (mapResponse change) v)
      = (responseTableSchemas v).map (mapSchema change) := by
  simp only [responseTableSchemas, valuesOf_eachValue, List.flatMap_map, List.map_flatMap,
    responseSchemas_mapResponse]

theorem requestBodySchemas_mapRequestBody :
    requestBodySchemas (mapRequestBody change v)
      = (requestBodySchemas v).map (mapSchema change) := by
  cases v with
  | scalar s => rfl
  | list vs => rfl
  | mapping fields =>
      simp [requestBodySchemas, mapRequestBody, changed, valuesAt_modify, List.flatMap_map,
        List.map_flatMap, contentSchemas_mapContent]

theorem operationSchemas_mapOperation :
    operationSchemas (mapOperation change v) = (operationSchemas v).map (mapSchema change) := by
  cases v with
  | scalar s => rfl
  | list vs => rfl
  | mapping fields =>
      simp [operationSchemas, mapOperation, changed, valuesAt_modify, List.flatMap_map,
        List.map_flatMap, parameterListSchemas_map, requestBodySchemas_mapRequestBody,
        responseTableSchemas_map]

theorem pathItemSchemas_mapPathItem :
    pathItemSchemas (mapPathItem change v) = (pathItemSchemas v).map (mapSchema change) := by
  cases v with
  | scalar s => rfl
  | list vs => rfl
  | mapping fields =>
      have hoperation : ∀ key ∈ operationKeys,
          valuesAt key (mapPathItem change (.mapping fields))
            = (valuesAt key (.mapping fields)).map (mapOperation change) := by
        intro key hkey
        have hne : key ≠ "parameters" := by
          rintro rfl
          exact absurd hkey (by decide)
        rw [mapPathItem, changed, valuesAt_modify_of_ne _ hne,
          valuesAt_modify_each (by decide : methods.Nodup), if_pos (show key ∈ methods from hkey)]
      have hparameters : valuesAt "parameters" (mapPathItem change (.mapping fields))
          = (valuesAt "parameters" (.mapping fields)).map (eachItem (mapParameter change)) := by
        rw [mapPathItem, changed, valuesAt_modify_self,
          valuesAt_modify_each (by decide : methods.Nodup), if_neg (by decide)]
      rw [pathItemSchemas, pathItemSchemas, hparameters, List.map_append, List.map_flatMap,
        List.map_flatMap, List.flatMap_map]
      congr 1
      · refine List.flatMap_congr fun key hkey => ?_
        rw [hoperation key hkey, List.flatMap_map, List.map_flatMap]
        exact List.flatMap_congr fun w _ => operationSchemas_mapOperation change w
      · exact List.flatMap_congr fun w _ => parameterListSchemas_map change w

theorem componentSchemas_mapComponents :
    componentSchemas (mapComponents change v) = (componentSchemas v).map (mapSchema change) := by
  cases v with
  | scalar s => rfl
  | list vs => rfl
  | mapping fields =>
      simp [componentSchemas, mapComponents, mapHeaders, changed, valuesAt_modify,
        valuesOf_eachValue, List.flatMap_map, List.map_flatMap, parameterTableSchemas_map,
        responseTableSchemas_map, requestBodySchemas_mapRequestBody]

/-- **The schemas of a changed description are its schemas, each of them changed.** -/
theorem outerSchemas_mapDocument (fields : Fields Value) :
    outerSchemas (mapDocument change fields) = (outerSchemas fields).map (mapSchema change) := by
  simp [outerSchemas, mapDocument, valuesAt_modify, valuesOf_eachValue, List.flatMap_map,
    List.map_flatMap, pathItemSchemas_mapPathItem, componentSchemas_mapComponents]

end

/-! ### A change that leaves the schemas alone leaves the description alone -/

section

variable {change : Fields Value → Fields Value} {v : Value}

theorem mapContent_eq_self (h : ∀ s ∈ contentSchemas v, mapSchema change s = s) :
    mapContent change v = v := by
  refine eachValue_eq_self fun media hmedia => ?_
  cases media with
  | scalar s => rfl
  | list vs => rfl
  | mapping fields =>
      exact congrArg Value.mapping
        (modify_eq_self fun s hs => h s (List.mem_flatMap.mpr ⟨_, hmedia, hs⟩))

theorem mapParameter_eq_self (h : ∀ s ∈ parameterSchemas v, mapSchema change s = s) :
    mapParameter change v = v := by
  cases v with
  | scalar s => rfl
  | list vs => rfl
  | mapping fields =>
      have hschema : Fields.modify fields "schema" (mapSchema change) = fields :=
        modify_eq_self fun s hs => h s (List.mem_append_left _ hs)
      have hcontent : Fields.modify fields "content" (mapContent change) = fields :=
        modify_eq_self fun content hin => mapContent_eq_self fun s hs =>
          h s (List.mem_append_right _ (List.mem_flatMap.mpr ⟨content, hin, hs⟩))
      rw [mapParameter, changed, hschema, hcontent]

theorem mapParameterList_eq_self (h : ∀ s ∈ parameterListSchemas v, mapSchema change s = s) :
    eachItem (mapParameter change) v = v :=
  eachItem_eq_self fun p hp => mapParameter_eq_self fun s hs =>
    h s (List.mem_flatMap.mpr ⟨p, hp, hs⟩)

theorem mapParameterTable_eq_self (h : ∀ s ∈ parameterTableSchemas v, mapSchema change s = s) :
    eachValue (mapParameter change) v = v :=
  eachValue_eq_self fun p hp => mapParameter_eq_self fun s hs =>
    h s (List.mem_flatMap.mpr ⟨p, hp, hs⟩)

theorem mapResponse_eq_self (h : ∀ s ∈ responseSchemas v, mapSchema change s = s) :
    mapResponse change v = v := by
  cases v with
  | scalar s => rfl
  | list vs => rfl
  | mapping fields =>
      have hcontent : Fields.modify fields "content" (mapContent change) = fields :=
        modify_eq_self fun content hin => mapContent_eq_self fun s hs =>
          h s (List.mem_append_left _ (List.mem_flatMap.mpr ⟨content, hin, hs⟩))
      have hheaders : Fields.modify fields "headers" (mapHeaders change) = fields :=
        modify_eq_self fun headers hin => mapParameterTable_eq_self fun s hs =>
          h s (List.mem_append_right _ (List.mem_flatMap.mpr ⟨headers, hin, hs⟩))
      rw [mapResponse, changed, hcontent, hheaders]

theorem mapResponseTable_eq_self (h : ∀ s ∈ responseTableSchemas v, mapSchema change s = s) :
    eachValue (mapResponse change) v = v :=
  eachValue_eq_self fun r hr => mapResponse_eq_self fun s hs =>
    h s (List.mem_flatMap.mpr ⟨r, hr, hs⟩)

theorem mapRequestBody_eq_self (h : ∀ s ∈ requestBodySchemas v, mapSchema change s = s) :
    mapRequestBody change v = v := by
  cases v with
  | scalar s => rfl
  | list vs => rfl
  | mapping fields =>
      exact congrArg Value.mapping (modify_eq_self fun content hin => mapContent_eq_self fun s hs =>
        h s (List.mem_flatMap.mpr ⟨content, hin, hs⟩))

theorem mapOperation_eq_self (h : ∀ s ∈ operationSchemas v, mapSchema change s = s) :
    mapOperation change v = v := by
  cases v with
  | scalar s => rfl
  | list vs => rfl
  | mapping fields =>
      simp only [operationSchemas, List.mem_append, List.mem_flatMap] at h
      have hparameters : Fields.modify fields "parameters" (eachItem (mapParameter change)) = fields :=
        modify_eq_self fun ps hin => mapParameterList_eq_self fun s hs =>
          h s (Or.inl (Or.inl ⟨ps, hin, hs⟩))
      have hbody : Fields.modify fields "requestBody" (mapRequestBody change) = fields :=
        modify_eq_self fun body hin => mapRequestBody_eq_self fun s hs =>
          h s (Or.inl (Or.inr ⟨body, hin, hs⟩))
      have hresponses : Fields.modify fields "responses" (eachValue (mapResponse change)) = fields :=
        modify_eq_self fun rs hin => mapResponseTable_eq_self fun s hs =>
          h s (Or.inr ⟨rs, hin, hs⟩)
      simp only [mapOperation, changed, hparameters, hbody, hresponses]

theorem mapPathItem_eq_self (h : ∀ s ∈ pathItemSchemas v, mapSchema change s = s) :
    mapPathItem change v = v := by
  cases v with
  | scalar s => rfl
  | list vs => rfl
  | mapping fields =>
      simp only [pathItemSchemas, List.mem_append, List.mem_flatMap] at h
      have hoperations :
          methods.foldl (fun acc m => Fields.modify acc m (mapOperation change)) fields = fields :=
        modify_each_eq_self fun key hkey operation hin => mapOperation_eq_self fun s hs =>
          h s (Or.inl ⟨key, hkey, operation, hin, hs⟩)
      have hparameters : Fields.modify fields "parameters" (eachItem (mapParameter change)) = fields :=
        modify_eq_self fun ps hin => mapParameterList_eq_self fun s hs =>
          h s (Or.inr ⟨ps, hin, hs⟩)
      simp only [mapPathItem, changed, hoperations, hparameters]

theorem mapComponents_eq_self (h : ∀ s ∈ componentSchemas v, mapSchema change s = s) :
    mapComponents change v = v := by
  cases v with
  | scalar s => rfl
  | list vs => rfl
  | mapping fields =>
      simp only [componentSchemas, List.mem_append, List.mem_flatMap] at h
      have hschemas : Fields.modify fields "schemas" (eachValue (mapSchema change)) = fields :=
        modify_eq_self fun schemas hin => eachValue_eq_self fun s hs =>
          h s (Or.inl (Or.inl (Or.inl (Or.inl ⟨schemas, hin, hs⟩))))
      have hparameters : Fields.modify fields "parameters" (eachValue (mapParameter change)) = fields :=
        modify_eq_self fun ps hin => mapParameterTable_eq_self fun s hs =>
          h s (Or.inl (Or.inl (Or.inl (Or.inr ⟨ps, hin, hs⟩))))
      have hresponses : Fields.modify fields "responses" (eachValue (mapResponse change)) = fields :=
        modify_eq_self fun rs hin => mapResponseTable_eq_self fun s hs =>
          h s (Or.inl (Or.inl (Or.inr ⟨rs, hin, hs⟩)))
      have hbodies : Fields.modify fields "requestBodies" (eachValue (mapRequestBody change))
          = fields :=
        modify_eq_self fun bodies hin => eachValue_eq_self fun body hbody =>
          mapRequestBody_eq_self fun s hs =>
            h s (Or.inl (Or.inr ⟨bodies, hin, body, hbody, hs⟩))
      have hheaders : Fields.modify fields "headers" (mapHeaders change) = fields :=
        modify_eq_self fun headers hin => mapParameterTable_eq_self fun s hs =>
          h s (Or.inr ⟨headers, hin, hs⟩)
      simp only [mapComponents, changed, hschemas, hparameters, hresponses, hbodies, hheaders]

/-- **A change that leaves every schema of a description alone leaves the description alone.** -/
theorem mapDocument_eq_self {fields : Fields Value}
    (h : ∀ s ∈ outerSchemas fields, mapSchema change s = s) : mapDocument change fields = fields := by
  simp only [outerSchemas, List.mem_append, List.mem_flatMap] at h
  have hpaths : Fields.modify fields "paths" (eachValue (mapPathItem change)) = fields :=
    modify_eq_self fun paths hin => eachValue_eq_self fun item hitem =>
      mapPathItem_eq_self fun s hs => h s (Or.inl ⟨paths, hin, item, hitem, hs⟩)
  have hcomponents : Fields.modify fields "components" (mapComponents change) = fields :=
    modify_eq_self fun components hin => mapComponents_eq_self fun s hs =>
      h s (Or.inr ⟨components, hin, hs⟩)
  simp only [mapDocument, hpaths, hcomponents]

end

end ApiClientGen.Canonical
