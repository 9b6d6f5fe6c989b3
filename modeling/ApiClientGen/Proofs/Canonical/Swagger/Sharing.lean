/-
Shared parameters and responses, written out.

An operation of version 2 may refer to a parameter or a response of the whole description, or
have a copy of it.  In canonical form the one refers to a component and the other has what that
component is: both are made of the same parameter or response in the same way.  There is one
difference.  The component is made once, with the media types of the description, and the copy
is made for its operation, with the media types of that.  So a body and a response that has a
schema come to the same only if these media types are the same.
-/
import ApiClientGen.Proofs.Canonical.Operations
import ApiClientGen.Proofs.Canonical.Swagger.Integrity

namespace ApiClientGen.Canonical

open ApiClientGen.Document ApiClientGen.Reference ApiClientGen.Text

/-- The characters that keep references from being read as they are written. -/
def refMarks : List Char := ['%', '\t', '\r', '\n']

/-- A reference to a definition, written plainly. -/
def IsDefinitionRef (ref : String) : Prop :=
  beginsWith ref "#/definitions/" = true ∧ IsWithout refMarks ref

instance (ref : String) : Decidable (IsDefinitionRef ref) :=
  inferInstanceAs (Decidable (beginsWith ref "#/definitions/" = true ∧ IsWithout refMarks ref))

/-- A reference to what is shared by a description, written plainly. -/
def IsSharedRef (ref : String) : Prop :=
  (∃ start ∈ refStarts, beginsWith ref start.1 = true) ∧ IsWithout refMarks ref

instance (ref : String) : Decidable (IsSharedRef ref) :=
  inferInstanceAs (Decidable
    ((∃ start ∈ refStarts, beginsWith ref start.1 = true) ∧ IsWithout refMarks ref))

theorem IsDefinitionRef.isSharedRef {ref : String} (h : IsDefinitionRef ref) : IsSharedRef ref :=
  ⟨⟨("#/definitions/", "#/components/schemas/"), by simp [refStarts], h.1⟩, h.2⟩

namespace Swagger

/-- A parameter or response that is no reference itself, and refers to definitions only. -/
structure IsCopyable (target : Fields Value) : Prop where
  plain : Fields.textAt? target "$ref" = none
  refs : RefsIn IsDefinitionRef target

/--
**An operation with one of its references written out**: a copy of the parameter or response
that it leads to stands in its place.  Where media types are used for that, those of the
operation are the ones of the description.
-/
inductive WrittenOut (content operation : Fields Value) : Fields Value → Prop where
  | parameter {before after : List Value} {written target : Fields Value} {name : String}
      (list : Fields.get? operation "parameters" = some (.list (before ++ .mapping written :: after)))
      (ref : Fields.textAt? written "$ref" = some ("#/parameters/" ++ name))
      (shared : Fields.get? (Fields.fieldsAt content "parameters") name = some (.mapping target))
      (copyable : IsCopyable target)
      (types : isAt "body" target = true →
        typesOf content operation "consumes"
          = effectiveMediaTypes (Fields.itemsAt content "consumes") []) :
      WrittenOut content operation
        (Fields.set operation "parameters" (.list (before ++ .mapping target :: after)))
  | response {code name : String} {written target : Fields Value}
      (responses : Fields.get? (Fields.fieldsAt operation "responses") code = some (.mapping written))
      (ref : Fields.textAt? written "$ref" = some ("#/responses/" ++ name))
      (shared : Fields.get? (Fields.fieldsAt content "responses") name = some (.mapping target))
      (copyable : IsCopyable target)
      (types : Fields.has target "schema" = true →
        typesOf content operation "produces"
          = effectiveMediaTypes (Fields.itemsAt content "produces") []) :
      WrittenOut content operation
        (Fields.set operation "responses"
          (.mapping (Fields.set (Fields.fieldsAt operation "responses") code (.mapping target))))

/-- The description with another operation for a method of a path. -/
def withOperation (content : Fields Value) (path : String) (item : Fields Value) (method : String)
    (operation : Fields Value) : Fields Value :=
  Fields.set content "paths" (.mapping (Fields.set (Fields.fieldsAt content "paths") path
    (.mapping (Fields.set item method (.mapping operation)))))

/-! ### Components and copies -/

/--
**A reference to a component, and the component**, before references are brought into canonical
form.
-/
inductive Unfolds (content : Fields Value) : Value → Value → Prop where
  | same (v : Value) : Unfolds content v v
  | entry {part name source : String} {target : Fields Value}
      (part_mem : part ∈ ["parameters", "requestBodies", "responses"])
      (name_plain : IsPlainName name) (name_without : IsWithout refMarks name)
      (ref : canonicalRef source = "#/components/" ++ part ++ "/" ++ name)
      (mem : (name, .mapping target) ∈ Fields.fieldsAt (components content) part)
      (nodup : (Fields.keys target).Nodup) (plain : Fields.textAt? target "$ref" = none)
      (refs : RefsIn IsDefinitionRef target) :
      Unfolds content (.mapping [("$ref", .string source)]) (.mapping target)

theorem nodup_keys_convertParameter (parameter : Fields Value) :
    (Fields.keys (convertParameter parameter)).Nodup := by
  unfold convertParameter
  split
  · exact List.nodup_singleton _
  · exact Fields.nodup_keys_update (Fields.nodup_keys_update (Fields.nodup_keys_set
      ((Fields.keys_select_sublist _ _).nodup (by decide)) _ _) _) _

theorem nodup_keys_bodyOf (parameter : Fields Value) (consumes : List String) :
    (Fields.keys (bodyOf parameter consumes)).Nodup := by
  have hbody : ∀ content : Value, (Fields.keys (Fields.setIfSome [("content", content)] "description"
      (Fields.get? parameter "description"))).Nodup :=
    fun content => Fields.nodup_keys_setIfSome (t := [("content", content)])
      (List.nodup_singleton "content") _ _
  unfold bodyOf
  dsimp only
  refine Fields.nodup_keys_update ?_ _
  split
  · exact Fields.nodup_keys_set (hbody _) _ _
  · exact hbody _

section

variable {content written target : Fields Value} {name : String}

theorem unfolds_convertParameter (hname : IsPlainName name) (hwithout : IsWithout refMarks name)
    (href : Fields.textAt? written "$ref" = some ("#/parameters/" ++ name))
    (hshared : (name, .mapping target) ∈ Fields.fieldsAt content "parameters")
    (hcopyable : IsCopyable target) (hbody : isAt "body" target = false)
    (hform : isAt "formData" target = false) :
    Unfolds content (.mapping (convertParameter written)) (.mapping (convertParameter target)) := by
  have hwritten : convertParameter written = [("$ref", .string ("#/parameters/" ++ name))] := by
    unfold convertParameter
    rw [Fields.get?_of_textAt? href]
  have hmem := mem_components_parameters hshared hbody hform
  rw [hwritten]
  refine .entry (show "parameters" ∈ _ from by simp) hname hwithout
    (canonicalRef_parameters name) hmem (nodup_keys_convertParameter target) ?_ (refsIn_convertParameter hcopyable.refs)
  rw [textAt?_convertParameter, hcopyable.plain]

theorem unfolds_bodyOf (hname : IsPlainName name) (hwithout : IsWithout refMarks name)
    (href : Fields.textAt? written "$ref" = some ("#/parameters/" ++ name))
    (hshared : (name, .mapping target) ∈ Fields.fieldsAt content "parameters")
    (hcopyable : IsCopyable target) (hbody : isAt "body" target = true) (consumes : List String) :
    Unfolds content (.mapping (bodyOfEntry consumes ⟨written, target⟩))
      (.mapping (bodyOf target (effectiveMediaTypes (Fields.itemsAt content "consumes") []))) := by
  have hmem := mem_components_requestBodies hshared hbody
  rw [bodyOfEntry_of_ref href]
  refine .entry (show "requestBodies" ∈ _ from by simp) hname hwithout ?_ hmem
    (nodup_keys_bodyOf _ _) (textAt?_bodyOf _ _) (refsIn_bodyOf hcopyable.refs _)
  rw [canonicalRef_bodyRef, bodyRef_append]

/-- A response that is no reference is converted to none, with distinct keys. -/
theorem exists_convertResponse (produces : List String)
    (hplain : Fields.textAt? target "$ref" = none) :
    ∃ fields, convertResponse produces (.mapping target) = .mapping fields
      ∧ (Fields.keys fields).Nodup ∧ Fields.textAt? fields "$ref" = none := by
  rw [convertResponse]
  cases href : Fields.get? target "$ref" with
  | some ref =>
      -- What stands there is no text, and is kept as it is.
      refine ⟨_, rfl, List.nodup_singleton _, ?_⟩
      rw [Fields.textAt?, href] at hplain
      simpa [Fields.textAt?, Fields.get?] using hplain
  | none =>
      have hkeys : ∀ (v content headers : Value) (noContent noHeaders : Bool),
          (Fields.keys ([("description", v)] ++ (if noContent then [] else [("content", content)])
            ++ (if noHeaders then [] else [("headers", headers)]))).Sublist
              ["description", "content", "headers"] := by
        intro v content headers noContent noHeaders
        rw [Fields.keys_append, Fields.keys_append]
        exact ((List.Sublist.refl ["description"]).append (Fields.keys_unless_sublist _ _ _)).append
          (Fields.keys_unless_sublist _ _ _)
      refine ⟨_, rfl, Fields.nodup_keys_update ((hkeys _ _ _ _ _).nodup (by decide)) _, ?_⟩
      rw [Fields.textAt?, Fields.get?_update_of_notMem (notMem_keys_extensions target (by decide)),
        Fields.get?_eq_none fun hmem => absurd ((hkeys _ _ _ _ _).subset hmem) (by decide)]
      rfl

/-- Media types only matter for responses that have a schema. -/
theorem convertResponse_congr {produces produces' : List String}
    (h : Fields.has target "schema" = true → produces = produces') :
    convertResponse produces (.mapping target) = convertResponse produces' (.mapping target) := by
  by_cases hschema : Fields.has target "schema" = true
  · rw [h hschema]
  · have hnone : Fields.get? target "schema" = none := by
      rwa [Fields.has, Option.isSome_iff_ne_none, not_not] at hschema
    rw [convertResponse, convertResponse, hnone]

theorem unfolds_convertResponse (hname : IsPlainName name) (hwithout : IsWithout refMarks name)
    (href : Fields.textAt? written "$ref" = some ("#/responses/" ++ name))
    (hshared : Fields.get? (Fields.fieldsAt content "responses") name = some (.mapping target))
    (hcopyable : IsCopyable target) (produces : List String) :
    Unfolds content (convertResponse produces (.mapping written))
      (convertResponse (effectiveMediaTypes (Fields.itemsAt content "produces") [])
        (.mapping target)) := by
  have hwritten : convertResponse produces (.mapping written)
      = .mapping [("$ref", .string ("#/responses/" ++ name))] := by
    rw [convertResponse, Fields.get?_of_textAt? href]
  obtain ⟨fields, hfields, hnodup, hplain⟩ := exists_convertResponse
    (effectiveMediaTypes (Fields.itemsAt content "produces") []) hcopyable.plain
  have hmem : (name, .mapping fields) ∈ Fields.fieldsAt (components content) "responses" := by
    rw [fieldsAt_components_responses, ← hfields]
    exact List.mem_map.mpr ⟨_, Fields.mem_of_get? hshared, rfl⟩
  have hrefs : RefsAt IsDefinitionRef "responses" (.mapping fields) := by
    rw [← hfields]
    exact refsAt_convertResponse (v := .mapping target) hcopyable.refs _
  rw [hwritten, hfields]
  exact .entry (show "responses" ∈ _ from by simp) hname hwithout (canonicalRef_responses name) hmem
    hnodup hplain hrefs

end

/-! ### Entries -/

section

variable {content : Fields Value} {written target : Fields Value}

/-- An entry that is a reference, and the one that is a copy. -/
def CopiedEntry (written target : Fields Value) (e f : Entry) : Prop :=
  e = f ∨ e = ⟨written, target⟩ ∧ f = ⟨target, target⟩

theorem CopiedEntry.resolved {e f : Entry} (h : CopiedEntry written target e f) :
    e.resolved = f.resolved := by
  rcases h with rfl | ⟨rfl, rfl⟩ <;> rfl

theorem CopiedEntry.key {e f : Entry} (h : CopiedEntry written target e f) : e.key = f.key := by
  rw [Entry.key, Entry.key, h.resolved]

theorem CopiedEntry.isAt {e f : Entry} (h : CopiedEntry written target e f) (place : String) :
    e.isAt place = f.isAt place := by
  rw [Entry.isAt, Entry.isAt, h.resolved]

theorem CopiedEntry.addEntry {entries entries' : List Entry} {e f : Entry}
    (h : List.Forall₂ (CopiedEntry written target) entries entries')
    (hef : CopiedEntry written target e f) :
    List.Forall₂ (CopiedEntry written target) (addEntry entries e) (addEntry entries' f) := by
  induction h with
  | nil => exact .cons hef .nil
  | cons hfirst hrest ih =>
      rw [Swagger.addEntry, Swagger.addEntry, hfirst.key, hef.key]
      split
      · exact .cons hef hrest
      · exact .cons hfirst ih

theorem CopiedEntry.foldl {new new' : List Entry}
    (h : List.Forall₂ (CopiedEntry written target) new new') :
    ∀ {entries entries' : List Entry}, List.Forall₂ (CopiedEntry written target) entries entries' →
      List.Forall₂ (CopiedEntry written target) (new.foldl Swagger.addEntry entries)
        (new'.foldl Swagger.addEntry entries') := by
  induction h with
  | nil => exact fun h => h
  | cons hef _ ih => exact fun h => ih (CopiedEntry.addEntry h hef)

/-- The entries that count are the same, up to the copy. -/
theorem copiedEntry_effectiveEntries (ofPath before after : List Value) {name : String}
    (href : Fields.textAt? written "$ref" = some ("#/parameters/" ++ name))
    (hshared : Fields.get? (Fields.fieldsAt content "parameters") name = some (.mapping target))
    (hplain : Fields.textAt? target "$ref" = none) :
    List.Forall₂ (CopiedEntry written target)
      (effectiveEntries (Fields.fieldsAt content "parameters") ofPath
        (before ++ .mapping written :: after))
      (effectiveEntries (Fields.fieldsAt content "parameters") ofPath
        (before ++ .mapping target :: after)) := by
  have hsame : ∀ vs : List Value, List.Forall₂ (CopiedEntry written target)
      (vs.filterMap (Entry.ofValue? (Fields.fieldsAt content "parameters")))
      (vs.filterMap (Entry.ofValue? (Fields.fieldsAt content "parameters"))) :=
    fun vs => List.forall₂_same.mpr fun _ _ => Or.inl rfl
  have hwritten : Entry.ofValue? (Fields.fieldsAt content "parameters") (.mapping written)
      = some ⟨written, target⟩ := by
    have hafter : textAfter? parameterRefStart ("#/parameters/" ++ name) = some name :=
      textAfter?_eq_some.mpr rfl
    rw [Entry.ofValue?, href, Option.bind_some, hafter]
    simp only [hshared]
  have hcopy : Entry.ofValue? (Fields.fieldsAt content "parameters") (.mapping target)
      = some ⟨target, target⟩ := by
    rw [Entry.ofValue?, hplain]
    rfl
  have hsplit : ∀ {v : Value} {e : Entry},
      Entry.ofValue? (Fields.fieldsAt content "parameters") v = some e →
        (ofPath ++ (before ++ v :: after)).filterMap
            (Entry.ofValue? (Fields.fieldsAt content "parameters"))
          = (ofPath ++ before).filterMap (Entry.ofValue? (Fields.fieldsAt content "parameters"))
            ++ e :: after.filterMap (Entry.ofValue? (Fields.fieldsAt content "parameters")) := by
    intro v e he
    rw [← List.append_assoc, List.filterMap_append, List.filterMap_cons_some he]
  -- Which entry replaces which is asked of what they stand for, so the copy has the same fate.
  refine CopiedEntry.foldl ?_ .nil
  rw [writtenEntries, writtenEntries, hsplit hwritten, hsplit hcopy]
  exact List.rel_append (hsame _) (.cons (Or.inr ⟨rfl, rfl⟩) (hsame _))

/-- The parameters that an operation has in the end, as references or as copies. -/
theorem unfolds_parameters {name : String} (hname : IsPlainName name)
    (hwithout : IsWithout refMarks name)
    (href : Fields.textAt? written "$ref" = some ("#/parameters/" ++ name))
    (hshared : (name, .mapping target) ∈ Fields.fieldsAt content "parameters")
    (hcopyable : IsCopyable target) {entries entries' : List Entry}
    (h : List.Forall₂ (CopiedEntry written target) entries entries') :
    List.Forall₂ (Unfolds content)
      ((entries.filter Entry.isPlain).map fun e => Value.mapping (convertParameter e.written))
      ((entries'.filter Entry.isPlain).map fun e => Value.mapping (convertParameter e.written)) := by
  have hplain : List.Forall₂ (fun e f => CopiedEntry written target e f ∧ e.isPlain = true)
      (entries.filter Entry.isPlain) (entries'.filter Entry.isPlain) :=
    forall₂_filter h fun e f hef => by
      rw [Entry.isPlain, Entry.isPlain, hef.isAt, hef.isAt]
  refine List.forall₂_map_left_iff.mpr (List.forall₂_map_right_iff.mpr (hplain.imp ?_))
  rintro e f ⟨rfl | ⟨rfl, rfl⟩, hplain⟩
  · exact .same _
  · simp only [Entry.isPlain, Bool.and_eq_true, Bool.not_eq_true'] at hplain
    exact unfolds_convertParameter hname hwithout href hshared hcopyable hplain.1 hplain.2

/-- The request body that an operation has in the end, as a reference or made of a copy. -/
theorem unfolds_requestBody? {name : String} (hname : IsPlainName name)
    (hwithout : IsWithout refMarks name)
    (href : Fields.textAt? written "$ref" = some ("#/parameters/" ++ name))
    (hshared : (name, .mapping target) ∈ Fields.fieldsAt content "parameters")
    (hcopyable : IsCopyable target) {consumes : List String}
    (htypes : isAt "body" target = true →
      consumes = effectiveMediaTypes (Fields.itemsAt content "consumes") [])
    {entries entries' : List Entry} (h : List.Forall₂ (CopiedEntry written target) entries entries') :
    Option.Rel (fun b b' => Unfolds content (.mapping b) (.mapping b'))
      (requestBody? consumes entries) (requestBody? consumes entries') := by
  have hform : (entries.filter (Entry.isAt "formData")).map Entry.resolved
      = (entries'.filter (Entry.isAt "formData")).map Entry.resolved := by
    have hforms := forall₂_filter h fun e f hef => hef.isAt "formData"
    refine List.forall₂_eq_eq_eq ▸ ?_
    exact List.forall₂_map_left_iff.mpr (List.forall₂_map_right_iff.mpr
      (hforms.imp fun e f hef => hef.1.resolved))
  unfold requestBody?
  dsimp only
  rw [hform]
  split
  · have hlast := forall₂_getLast? (forall₂_filter h fun e f hef => hef.isAt "body")
    generalize (entries.filter (Entry.isAt "body")).getLast? = e at hlast
    generalize (entries'.filter (Entry.isAt "body")).getLast? = f at hlast
    cases hlast with
    | none => exact .none
    | some hef =>
        obtain ⟨rfl | ⟨rfl, rfl⟩, hbody⟩ := hef
        · exact .some (.same _)
        · refine .some ?_
          have hcopy : bodyOfEntry consumes ⟨target, target⟩ = bodyOf target consumes := by
            rw [bodyOfEntry, hcopyable.plain]
          rw [hcopy, htypes hbody]
          exact unfolds_bodyOf hname hwithout href hshared hcopyable hbody _
  · exact .some (.same _)

end

/-! ### Operations, paths and descriptions -/

theorem extensions_set {t : Fields Value} {key : String} (h : isExtension key = false) (v : Value) :
    extensions (Fields.set t key v) = extensions t := by
  have hfilter : (Fields.set t key v).filter (fun e => isExtension e.1)
      = t.filter fun e => isExtension e.1 := by
    induction t with
    | nil => simp [Fields.set, h]
    | cons e t ih =>
        obtain ⟨k, w⟩ := e
        by_cases hk : k = key
        · subst hk
          simp [Fields.set, h]
        · simp [Fields.set, hk, List.filter_cons, ih]
  rw [extensions, hfilter, extensions]

section

variable {content operation operation' : Fields Value} {ofPath : List Value}

/-- The text of a reference is one of those in its fields. -/
theorem refsIn_textAt? {P : String → Prop} {fields : Fields Value} {ref : String}
    (h : RefsIn P fields) (href : Fields.textAt? fields "$ref" = some ref) : P ref :=
  h.get? (Fields.get?_of_textAt? href) ref (by simp [refTextsAt])

/-- An operation is related to another one if its parameters, body and responses are. -/
theorem related_operation {r : Value → Value → Prop} (hr : ∀ v, r v v) (own ext : Fields Value)
    {body body' : Option (Fields Value)} {parameters parameters' : List Value}
    {responses responses' : Fields Value}
    (hbody : Option.Rel (fun b b' => r (.mapping b) (.mapping b')) body body')
    (hparameters : List.Forall₂ r parameters parameters')
    (hresponses : Fields.Related (fun _ => r) responses responses') :
    Fields.Related (OperationField r)
      (Fields.update (own ++ (body.map fun b => ("requestBody", Value.mapping b)).toList
        ++ (if parameters.isEmpty then [] else [("parameters", .list parameters)])
        ++ [("responses", .mapping responses)]) ext)
      (Fields.update (own ++ (body'.map fun b => ("requestBody", Value.mapping b)).toList
        ++ (if parameters'.isEmpty then [] else [("parameters", .list parameters')])
        ++ [("responses", .mapping responses')]) ext) := by
  have hrefl := OperationField.refl hr
  have hbodyField : Fields.Related (OperationField r)
      (body.map fun b => ("requestBody", Value.mapping b)).toList
      (body'.map fun b => ("requestBody", Value.mapping b)).toList := by
    cases hbody with
    | none => exact .nil
    | some h => exact .cons h .nil
  have hparametersField : Fields.Related (OperationField r)
      (if parameters.isEmpty then [] else [("parameters", .list parameters)])
      (if parameters'.isEmpty then [] else [("parameters", .list parameters')]) := by
    rw [forall₂_isEmpty hparameters]
    split
    · exact .nil
    · exact .cons (.items hparameters) .nil
  have hresponsesField : Fields.Related (OperationField r) [("responses", .mapping responses)]
      [("responses", .mapping responses')] :=
    .cons (RelatedMappings.fields hresponses) .nil
  exact ((((Fields.Related.refl hrefl own).append hbodyField).append hparametersField).append
    hresponsesField).update (Fields.Related.refl hrefl ext)

/-- **A converted operation, with a reference or with a copy in its place.** -/
theorem related_convertOperation (hnames : HasPlainNames content)
    (hrefs : RefsIn IsSharedRef operation)
    (h : WrittenOut content operation operation') (ofPath : List Value) :
    Fields.Related (OperationField (Unfolds content)) (convertOperation content ofPath operation)
      (convertOperation content ofPath operation') := by
  cases h with
  | @parameter before after written target name hlist href hshared hcopyable htypes =>
      have hmem := Fields.mem_of_get? hshared
      have hname := hnames "parameters" (by decide) name (Fields.mem_keys_of_mem hmem)
      have hwithout : IsWithout refMarks name := by
        have hwritten : Refs IsSharedRef (.mapping written) :=
          refs_list.mp (hrefs.get? hlist).refs _ (by simp)
        exact (isWithout_append.mp (refsIn_textAt? hwritten href).2).2
      have hentries := copiedEntry_effectiveEntries ofPath before after href hshared hcopyable.plain
      unfold convertOperation
      dsimp only
      rw [Fields.select_set (by decide), extensions_set (by decide), Fields.itemsAt_of_get? hlist,
        Fields.itemsAt_of_get? (Fields.get?_set_self operation "parameters" _),
        Fields.itemsAt_set_of_ne (by decide : "parameters" ≠ "consumes"),
        Fields.itemsAt_set_of_ne (by decide : "parameters" ≠ "produces"),
        Fields.fieldsAt_set_of_ne (by decide : "parameters" ≠ "responses")]
      exact related_operation Unfolds.same _ _
        (unfolds_requestBody? hname hwithout href hmem hcopyable htypes hentries)
        (unfolds_parameters hname hwithout href hmem hcopyable hentries)
        (Fields.Related.refl (fun _ => Unfolds.same) _)
  | @response code name written target hresponses href hshared hcopyable htypes =>
      have hname := hnames "responses" (by decide) name (Fields.mem_keys_of_get? hshared)
      have hwithout : IsWithout refMarks name := by
        have hwritten : RefsIn IsSharedRef written := (hrefs.fieldsAt "responses").get? hresponses
        exact (isWithout_append.mp (refsIn_textAt? hwritten href).2).2
      unfold convertOperation
      dsimp only
      rw [Fields.select_set (by decide), extensions_set (by decide),
        Fields.fieldsAt_of_get? (Fields.get?_set_self operation "responses" _),
        Fields.itemsAt_set_of_ne (by decide : "responses" ≠ "consumes"),
        Fields.itemsAt_set_of_ne (by decide : "responses" ≠ "produces"),
        Fields.itemsAt_set_of_ne (by decide : "responses" ≠ "parameters")]
      refine related_operation Unfolds.same _ _ ?_
        (List.forall₂_same.mpr fun v _ => .same v) ?_
      · cases requestBody? _ _ with
        | none => exact .none
        | some b => exact .some (.same _)
      · have hcopied := unfolds_convertResponse hname hwithout href hshared hcopyable
          (typesOf content operation "produces")
        rw [← convertResponse_congr htypes] at hcopied
        exact (Fields.Related.set_right (R := fun _ v w =>
            Unfolds content (convertResponse (typesOf content operation "produces") v)
              (convertResponse (typesOf content operation "produces") w))
          (fun _ _ => .same _) hresponses hcopied).mapValues fun _ _ _ h => h

end

/-! ### The whole description -/

section

variable {content item operation operation' : Fields Value} {path method : String}

/-! Only the paths of the description are others. -/

theorem fieldsAt_withOperation (key : String) (hkey : "paths" ≠ key) :
    Fields.fieldsAt (withOperation content path item method operation') key
      = Fields.fieldsAt content key :=
  Fields.fieldsAt_set_of_ne hkey _

theorem itemsAt_withOperation (key : String) (hkey : "paths" ≠ key) :
    Fields.itemsAt (withOperation content path item method operation') key
      = Fields.itemsAt content key :=
  Fields.itemsAt_set_of_ne hkey _

theorem components_withOperation :
    components (withOperation content path item method operation') = components content := by
  unfold components
  dsimp only
  rw [itemsAt_withOperation "consumes" (by decide), itemsAt_withOperation "produces" (by decide),
    fieldsAt_withOperation "parameters" (by decide),
    fieldsAt_withOperation "definitions" (by decide),
    fieldsAt_withOperation "responses" (by decide),
    fieldsAt_withOperation "securityDefinitions" (by decide)]

theorem servers_withOperation :
    servers (withOperation content path item method operation') = servers content := by
  unfold servers
  rw [withOperation, Fields.textAt?_set_of_ne (by decide : "paths" ≠ "basePath"),
    Fields.textAt?_set_of_ne (by decide : "paths" ≠ "host"),
    Fields.itemsAt_set_of_ne (by decide : "paths" ≠ "schemes")]

/-- Operations are converted with the same parameters and media types of the description. -/
theorem convertOperation_withOperation (ofPath : List Value) (own : Fields Value) :
    convertOperation (withOperation content path item method operation') ofPath own
      = convertOperation content ofPath own := by
  unfold convertOperation
  dsimp only
  rw [itemsAt_withOperation "consumes" (by decide), itemsAt_withOperation "produces" (by decide),
    fieldsAt_withOperation "parameters" (by decide)]

theorem convertPathItem_withOperation (own : Fields Value) :
    convertPathItem (withOperation content path item method operation') own
      = convertPathItem content own := by
  unfold convertPathItem
  simp only [convertOperation_withOperation]

theorem parameters_notMem_methods : "parameters" ∉ methods := by decide

theorem isExtension_of_mem_methods {method : String} (h : method ∈ methods) :
    isExtension method = false := by
  revert method
  decide

/-- **A converted path, with an operation in the place of another one.** -/
theorem related_convertPathItem (hmethod : method ∈ methods)
    (hget : Fields.get? item method = some (.mapping operation))
    (h : ∀ ofPath, Fields.Related (OperationField (Unfolds content))
      (convertOperation content ofPath operation) (convertOperation content ofPath operation')) :
    Fields.Related (PathField (Unfolds content)) (convertPathItem content item)
      (convertPathItem content (Fields.set item method (.mapping operation'))) := by
  have hne : method ≠ "parameters" := fun heq => parameters_notMem_methods (heq ▸ hmethod)
  unfold convertPathItem
  dsimp only
  rw [extensions_set (isExtension_of_mem_methods hmethod), Fields.itemsAt_set_of_ne hne]
  refine Fields.Related.update (forall₂_filterMap fun m hm => ?_)
    (Fields.Related.refl (PathField.refl _) _)
  by_cases heq : method = m
  · subst heq
    have hfield : PathField (Unfolds content) method
        (.mapping (convertOperation content (Fields.itemsAt item "parameters") operation))
        (.mapping (convertOperation content (Fields.itemsAt item "parameters") operation')) := by
      rw [PathField, if_pos hmethod]
      exact .fields (h _)
    rw [hget, Fields.get?_set_self]
    exact .some ⟨rfl, hfield⟩
  · rw [Fields.get?_set_of_ne item _ heq]
    exact optionRel_self fun e _ => ⟨rfl, PathField.refl _ _ _⟩

/-- **The converted paths of a description with one of its references written out.** -/
theorem related_paths (hnames : HasPlainNames content) (hrefs : RefsIn IsSharedRef operation)
    (hpath : Fields.get? (Fields.fieldsAt content "paths") path = some (.mapping item))
    (hmethod : method ∈ methods) (hget : Fields.get? item method = some (.mapping operation))
    (h : WrittenOut content operation operation') :
    RelatedMappings (fun _ => RelatedMappings (PathField (Unfolds content)))
      (.mapping (paths content))
      (.mapping (paths (withOperation content path item method operation'))) := by
  have hitem := related_convertPathItem hmethod hget
    fun ofPath => related_convertOperation hnames hrefs h ofPath
  have hpaths : Fields.fieldsAt (withOperation content path item method operation') "paths"
      = Fields.set (Fields.fieldsAt content "paths") path
        (.mapping (Fields.set item method (.mapping operation'))) :=
    Fields.fieldsAt_of_get? (Fields.get?_set_self content "paths" _)
  have hrel := Fields.Related.set_right (R := fun _ v w => v = w
      ∨ v = .mapping item ∧ w = .mapping (Fields.set item method (.mapping operation')))
    (fun _ _ => Or.inl rfl) hpath (Or.inr ⟨rfl, rfl⟩)
  unfold paths
  rw [hpaths]
  simp only [convertPathItem_withOperation]
  refine .fields (List.rel_filterMap (fun e f he => ?_) hrel)
  obtain ⟨k, v⟩ := e
  obtain ⟨l, w⟩ := f
  obtain ⟨rfl, rfl | ⟨rfl, rfl⟩⟩ := he
  · exact optionRel_self fun e _ => ⟨rfl, .same _⟩
  · exact .some ⟨rfl, .fields hitem⟩

/-- What is the same, unless it stands under the key of paths. -/
def SameButPaths (key : String) (v w : Value) : Prop := key ≠ "paths" → v = w

/-- Two descriptions with the same fields but for paths are converted to such. -/
theorem related_convert :
    Fields.Related SameButPaths (convert content)
      (convert (withOperation content path item method operation')) := by
  have hext : extensions (withOperation content path item method operation') = extensions content :=
    extensions_set (by decide) _
  have hdocs : Fields.get? (withOperation content path item method operation') "externalDocs"
      = Fields.get? content "externalDocs" :=
    Fields.get?_set_of_ne content _ (by decide)
  have hrefl : ∀ key v, SameButPaths key v v := fun _ _ _ => rfl
  have hparts : Fields.Related SameButPaths [
      ("info", .mapping (Fields.fieldsAt content "info")),
      ("servers", .list (servers content)),
      ("paths", .mapping (paths content)),
      ("components", .mapping (components content)),
      ("security", .list (Fields.itemsAt content "security")),
      ("tags", .list (Fields.itemsAt content "tags"))] [
      ("info", .mapping (Fields.fieldsAt content "info")),
      ("servers", .list (servers content)),
      ("paths", .mapping (paths (withOperation content path item method operation'))),
      ("components", .mapping (components content)),
      ("security", .list (Fields.itemsAt content "security")),
      ("tags", .list (Fields.itemsAt content "tags"))] :=
    .cons (hrefl _ _) (.cons (hrefl _ _) (.cons (fun hne => absurd rfl hne) (.refl hrefl _)))
  have hupdated := hparts.update (Fields.Related.refl hrefl (extensions content))
  unfold convert
  dsimp only
  rw [hext, components_withOperation, servers_withOperation, hdocs,
    fieldsAt_withOperation "info" (by decide), itemsAt_withOperation "security" (by decide),
    itemsAt_withOperation "tags" (by decide)]
  split
  · exact hupdated.set fun _ => rfl
  · exact hupdated

end

end Swagger

open Swagger

/-- Fields that are the same but for paths are those of canonical forms that are. -/
theorem ofFields_of_related {t u : Fields Value} (h : Fields.Related SameButPaths t u) :
    CanonicalDocument.ofFields u
      = { CanonicalDocument.ofFields t with paths := Fields.fieldsAt u "paths" } := by
  have hget : ∀ key, key ≠ "paths" → Fields.get? u key = Fields.get? t key :=
    fun key hkey => (h.get?_eq fun v w hvw => hvw hkey).symm
  have hext : extensions u = extensions t := by
    have hfilter := forall₂_filter (p := fun e => isExtension e.1) (q := fun e => isExtension e.1) h
      fun e f hef => by rw [hef.1]
    have heq : t.filter (fun e => isExtension e.1) = u.filter fun e => isExtension e.1 := by
      refine List.forall₂_eq_eq_eq ▸ hfilter.imp fun e f hef => ?_
      have hne : e.1 ≠ "paths" := by
        intro hkey
        rw [hkey] at hef
        exact absurd hef.2 (by decide)
      exact Prod.ext hef.1.1 (hef.1.2 hne)
    rw [extensions, ← heq, extensions]
  unfold CanonicalDocument.ofFields
  rw [Fields.fieldsAt_congr (hget "info" (by decide)),
    Fields.itemsAt_congr (hget "servers" (by decide)),
    Fields.fieldsAt_congr (hget "components" (by decide)),
    Fields.itemsAt_congr (hget "security" (by decide)),
    Fields.itemsAt_congr (hget "tags" (by decide)), hget "externalDocs" (by decide), hext]

/-- **The canonical form of a description with another operation** has other paths, and no more. -/
theorem upgrade_withOperation (content : Fields Value) (path : String) (item : Fields Value)
    (method : String) (operation : Fields Value) :
    upgrade ⟨.swagger2, withOperation content path item method operation⟩
      = { upgrade ⟨.swagger2, content⟩ with
          paths := canonicalRefFields (paths (withOperation content path item method operation)) } := by
  have hrelated : Fields.Related SameButPaths (canonicalRefFields (convert content))
      (canonicalRefFields (convert (withOperation content path item method operation))) := by
    rw [canonicalRefFields_eq_map, canonicalRefFields_eq_map]
    exact related_convert.map fun key v w hvw hkey => congrArg (canonicalRefAt key) (hvw hkey)
  rw [← fieldsAt_convert_paths, ← fieldsAt_canonicalRefFields]
  exact ofFields_of_related hrelated

end ApiClientGen.Canonical
