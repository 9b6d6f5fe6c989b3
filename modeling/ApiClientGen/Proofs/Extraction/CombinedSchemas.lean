/-
The properties of combined schemas.

Schemas combine schemas, which may combine others in turn, share some of them or lead back to
where they came from.  A record has the properties of all of them.  The walk that collects them
looks at no schema twice, and nothing is lost by that: whatever a schema combines is looked at
when the walk is over, since it was looked at before or is looked at then.  So the schemas that
were looked at are closed under being combined, and what the walk found is what they declare and
require.  The own properties of a schema are written last and stay as they are.
-/
import Mathlib.Logic.Relation
import ApiClientGen.Proofs.Extraction.OperationSources
import ApiClientGen.Proofs.Extraction.Properties
import ApiClientGen.Proofs.Extraction.Widening
import ApiClientGen.Proofs.Reference.Nodes

namespace ApiClientGen.Extraction

open ApiClientGen.Canonical ApiClientGen.Document ApiClientGen.Reference ApiClientGen.Spec Extract
  Relation

namespace Scope

/-! ### Schemas that combine schemas -/

/-- A schema combines another one, which is one of its parts. -/
def Combines (s : Scope) (n part : Node) : Prop :=
  ∃ target parts, s.follow n = .ok target ∧ s.itemsOf (target.field? "allOf") = .ok parts
    ∧ part ∈ parts

/-- A schema is part of another one, directly or through parts of it, or is the schema itself. -/
def IsPartOf (s : Scope) (part n : Node) : Prop := ReflTransGen s.Combines n part

/-- A schema declares a property itself. -/
def Declares (s : Scope) (n : Node) (name : String) (property : Node) : Prop :=
  ∃ target own, s.follow n = .ok target ∧ s.fieldsOf (target.field? "properties") = .ok own
    ∧ Fields.get? own name = some property

/-- A schema requires a property itself. -/
def Requires (s : Scope) (n : Node) (name : String) : Prop :=
  ∃ target required, s.follow n = .ok target
    ∧ s.textsOf (target.field? "required") = .ok required ∧ name ∈ required

/-- A field is made of a property: it has the type, the description and the default of it. -/
structure IsMadeOf (answer : Option Node → String → Extract TypeRef) (s : Scope) (model : String)
    (property : Node) (f : RecordField) : Prop where
  type : MayGive (answer (some property) (model ++ Naming.pascalCase f.name)) f.type
  described : ∃ fields, s.fieldsOf (some property) = .ok fields
    ∧ s.textOf (Fields.get? fields "description") = .ok f.description
    ∧ match Fields.get? fields "default" with
      | some d => f.default = s.deferred d
      | none => f.default = .scalar .null

/-- **The fields of a record**: those that its schema and the parts of it declare. -/
structure HasFieldsOf (answer : Option Node → String → Extract TypeRef) (s : Scope)
    (model : String) (schema : Node) (fields : List RecordField) : Prop where
  nodup : (fields.map RecordField.name).Nodup
  /-- Every field is declared by some part. -/
  declared : ∀ f ∈ fields, ∃ part property, s.IsPartOf part schema
    ∧ s.Declares part f.name property ∧ IsMadeOf answer s model property f
  /-- Everything that some part declares is a field. -/
  complete : ∀ part name property, s.IsPartOf part schema → s.Declares part name property →
    name ∈ fields.map RecordField.name
  required : ∀ f ∈ fields, f.required = true ↔ ∃ part, s.IsPartOf part schema ∧ s.Requires part f.name
  /-- What the schema declares itself is made as it declares it. -/
  own : ∀ name property, s.Declares schema name property →
    ∃ f ∈ fields, f.name = name ∧ IsMadeOf answer s model property f

variable {s : Scope} {document : Value} {n m part target : Node}

/-- What a schema combines are the parts that the mapping behind it lists. -/
theorem combines_iff {parts : List Node} (htarget : s.follow n = .ok target)
    (hparts : s.itemsOf (target.field? "allOf") = .ok parts) : s.Combines n part ↔ part ∈ parts := by
  constructor
  · rintro ⟨other, others, hother, hothers, hmem⟩
    obtain rfl := Except.ok.inj (htarget.symm.trans hother)
    obtain rfl := Except.ok.inj (hparts.symm.trans hothers)
    exact hmem
  · intro hmem
    exact ⟨target, parts, htarget, hparts, hmem⟩

/-- What a schema declares are the properties of the mapping behind it. -/
theorem declares_iff {own : Fields Node} {name : String} {property : Node}
    (htarget : s.follow n = .ok target)
    (hown : s.fieldsOf (target.field? "properties") = .ok own) :
    s.Declares n name property ↔ Fields.get? own name = some property := by
  constructor
  · rintro ⟨other, others, hother, hothers, hget⟩
    obtain rfl := Except.ok.inj (htarget.symm.trans hother)
    obtain rfl := Except.ok.inj (hown.symm.trans hothers)
    exact hget
  · intro hget
    exact ⟨target, own, htarget, hown, hget⟩

/-- What a schema requires are the names that the mapping behind it lists. -/
theorem requires_iff {required : List String} {name : String} (htarget : s.follow n = .ok target)
    (hrequired : s.textsOf (target.field? "required") = .ok required) :
    s.Requires n name ↔ name ∈ required := by
  constructor
  · rintro ⟨other, others, hother, hothers, hmem⟩
    obtain rfl := Except.ok.inj (htarget.symm.trans hother)
    obtain rfl := Except.ok.inj (hrequired.symm.trans hothers)
    exact hmem
  · intro hmem
    exact ⟨target, required, htarget, hrequired, hmem⟩

theorem isMapping_of_follow_ok (h : s.follow n = .ok target) :
    s.isMapping (some n) = .ok target.value.isMapping := by
  simp [isMapping, behind, h]

theorem field?_eq_none (h : target.value.isMapping = false) (key : String) :
    target.field? key = none := by
  unfold Node.field?
  cases hvalue : target.value with
  | scalar v => rfl
  | list vs => rfl
  | mapping fields => rw [hvalue] at h; cases h

/-- What has something under a key is a mapping. -/
theorem isMapping_of_field? (h : s.follow n = .ok target) (key : String)
    (hkey : target.field? key ≠ none) : s.isMapping (some n) = .ok true := by
  rw [isMapping_of_follow_ok h]
  cases hmapping : target.value.isMapping with
  | true => rfl
  | false => exact absurd (field?_eq_none hmapping key) hkey

theorem Combines.isMapping (h : s.Combines n part) : s.isMapping (some n) = .ok true := by
  obtain ⟨target, parts, htarget, hparts, hpart⟩ := h
  refine isMapping_of_field? htarget "allOf" fun hnone => ?_
  rw [hnone] at hparts
  cases hparts
  cases hpart

theorem Declares.isMapping {name : String} {property : Node} (h : s.Declares n name property) :
    s.isMapping (some n) = .ok true := by
  obtain ⟨target, own, htarget, hown, hget⟩ := h
  refine isMapping_of_field? htarget "properties" fun hnone => ?_
  rw [hnone] at hown
  cases hown
  cases hget

theorem Requires.isMapping {name : String} (h : s.Requires n name) :
    s.isMapping (some n) = .ok true := by
  obtain ⟨target, required, htarget, hrequired, hmem⟩ := h
  refine isMapping_of_field? htarget "required" fun hnone => ?_
  rw [hnone] at hrequired
  cases hrequired
  cases hmem

/-- The parts of a schema of the document are nodes of it. -/
theorem Within.combines (hs : s.Within document) (hn : Located document n)
    (h : s.Combines n part) : Located document part := by
  obtain ⟨target, parts, htarget, hparts, hpart⟩ := h
  exact hs.itemsOf (fun m hm => (hs.follow hn htarget).field? hm) hparts part hpart

theorem Within.mem_nodes_of_isMapping (hs : s.Within document) (hn : Located document n)
    (h : s.isMapping (some n) = .ok true) : n ∈ nodes document := by
  obtain ⟨target, htarget, hmapping⟩ := isMapping_some_ok h
  exact hn.mem_of_isMapping (hs.isMapping_of_follow htarget hmapping.symm)

/-! ### Walks that come to an end -/

namespace Walk

variable {α β : Type} {seen seen' : List Place}

theorem bind_ok {w : Walk α} {f : α → Walk β} {b : β} :
    (w >>= f).run.run seen = (.ok b, seen')
      ↔ ∃ a seen₁, w.run.run seen = (.ok a, seen₁) ∧ (f a).run.run seen₁ = (.ok b, seen') := by
  rw [run_bind]
  constructor
  · intro h
    rcases hrun : w.run.run seen with ⟨failure | a, seen₁⟩
    · rw [hrun] at h
      cases h
    · rw [hrun] at h
      exact ⟨a, seen₁, rfl, h⟩
  · rintro ⟨a, seen₁, hw, hf⟩
    rw [hw]
    exact hf

theorem lift_bind_ok {e : Except Failure α} {f : α → Walk β} {b : β} :
    (liftM e >>= f : Walk β).run.run seen = (.ok b, seen')
      ↔ ∃ a, e = .ok a ∧ (f a).run.run seen = (.ok b, seen') := by
  rw [run_lift_bind]
  cases e with
  | error failure => exact ⟨fun h => (nomatch h), fun ⟨_, h, _⟩ => nomatch h⟩
  | ok a => simp

theorem pure_ok {a b : α} :
    (pure a : Walk α).run.run seen = (.ok b, seen') ↔ a = b ∧ seen = seen' := by
  constructor
  · intro h
    cases h
    exact ⟨rfl, rfl⟩
  · rintro ⟨rfl, rfl⟩
    rfl

end Walk

/-- What is found in a schema: the properties of its parts, and its own ones. -/
theorem expansion_ok {answer : Node → Walk Properties} {seen seen' : List Place}
    {found : Properties} (h : (s.expansion answer target).run.run seen = (.ok found, seen')) :
    ∃ parts inherited own required,
      s.itemsOf (target.field? "allOf") = .ok parts
        ∧ (parts.foldlM (joinPart answer) {}).run.run seen = (.ok inherited, seen')
        ∧ s.fieldsOf (target.field? "properties") = .ok own
        ∧ s.textsOf (target.field? "required") = .ok required
        ∧ found = inherited.join { schemas := own, required } := by
  obtain ⟨parts, hparts, h⟩ := Walk.lift_bind_ok.mp h
  obtain ⟨inherited, seen₁, hinherited, h⟩ := Walk.bind_ok.mp h
  obtain ⟨own, hown, h⟩ := Walk.lift_bind_ok.mp h
  obtain ⟨required, hrequired, h⟩ := Walk.lift_bind_ok.mp h
  obtain ⟨rfl, rfl⟩ := Walk.pure_ok.mp h
  exact ⟨parts, inherited, own, required, hparts, hinherited, hown, hrequired, rfl⟩

/-! ### What a walk has looked at -/

/-- A schema of the document was looked at on a walk: its place was added. -/
def LookedAt (document : Value) (seen seen' : List Place) (n : Node) : Prop :=
  n ∈ nodes document ∧ n.place ∈ seen' ∧ n.place ∉ seen

section

variable {seen seen₁ seen' : List Place}

theorem not_lookedAt (h : LookedAt document seen seen n) : False := h.2.2 h.2.1

/-- Of two walks in a row, either has looked at a schema. -/
theorem lookedAt_iff (hsub : seen ⊆ seen₁) (hsub' : seen₁ ⊆ seen') :
    LookedAt document seen seen' n
      ↔ LookedAt document seen seen₁ n ∨ LookedAt document seen₁ seen' n := by
  constructor
  · rintro ⟨hmem, hplace, hnew⟩
    by_cases hseen : n.place ∈ seen₁
    · exact Or.inl ⟨hmem, hseen, hnew⟩
    · exact Or.inr ⟨hmem, hplace, hseen⟩
  · rintro (⟨hmem, hplace, hnew⟩ | ⟨hmem, hplace, hnew⟩)
    · exact ⟨hmem, hsub' hplace, hnew⟩
    · exact ⟨hmem, hplace, fun hseen => hnew (hsub hseen)⟩

/-- A walk through the parts of a schema follows the look at the schema itself. -/
theorem lookedAt_cons_iff (hkeys : KeysDistinct (nodes document)) (hn : n ∈ nodes document)
    (hnew : n.place ∉ seen) (hsub : n.place :: seen ⊆ seen') :
    LookedAt document seen seen' m ↔ m = n ∨ LookedAt document (n.place :: seen) seen' m := by
  have hself : LookedAt document seen (n.place :: seen) m ↔ m = n := by
    constructor
    · rintro ⟨hm, hplace, hfresh⟩
      exact eq_of_place_eq hkeys hm hn ((List.mem_cons.mp hplace).resolve_right hfresh)
    · rintro rfl
      exact ⟨hn, List.mem_cons_self, hnew⟩
  rw [lookedAt_iff (List.subset_cons_self _ _) hsub, hself]

end

/-- **A walk from some schemas has found all that there is.** -/
structure Gathered (s : Scope) (document : Value) (starts : List Node) (seen seen' : List Place)
    (found : Properties) : Prop where
  grows : seen ⊆ seen'
  started : ∀ n ∈ starts, s.isMapping (some n) = .ok true → n.place ∈ seen'
  /-- Whatever a schema combines that was looked at has been looked at, now or before. -/
  closed : ∀ n part, LookedAt document seen seen' n → s.Combines n part →
    s.isMapping (some part) = .ok true → part.place ∈ seen'
  reached : ∀ n, LookedAt document seen seen' n → ∃ start ∈ starts, s.IsPartOf n start
  nodup : (Fields.keys found.schemas).Nodup
  origin : ∀ e ∈ found.schemas, ∃ n, LookedAt document seen seen' n ∧ s.Declares n e.1 e.2
  names : ∀ n name property, LookedAt document seen seen' n → s.Declares n name property →
    name ∈ Fields.keys found.schemas
  required : ∀ name, name ∈ found.required
    ↔ ∃ n, LookedAt document seen seen' n ∧ s.Requires n name

namespace Gathered

variable {starts more parts : List Node} {seen seen₁ seen' : List Place}
  {found others inherited : Properties}

/-- Where there is nothing to look at, nothing is found. -/
theorem nothing (h : ∀ n ∈ starts, s.isMapping (some n) = .ok true → n.place ∈ seen) :
    s.Gathered document starts seen seen {} where
  grows := List.Subset.refl _
  started := h
  closed _ _ hn _ _ := (not_lookedAt hn).elim
  reached _ hn := (not_lookedAt hn).elim
  nodup := List.nodup_nil
  origin _ he := nomatch he
  names _ _ _ hn _ := (not_lookedAt hn).elim
  required _ := ⟨fun h => (nomatch h), fun ⟨_, hn, _⟩ => (not_lookedAt hn).elim⟩

/-- What two walks in a row have found. -/
theorem append (h : s.Gathered document starts seen seen₁ found)
    (h' : s.Gathered document more seen₁ seen' others) :
    s.Gathered document (starts ++ more) seen seen' (found.join others) where
  grows := List.Subset.trans h.grows h'.grows
  started n hn hmapping := by
    rcases List.mem_append.mp hn with hn | hn
    · exact h'.grows (h.started n hn hmapping)
    · exact h'.started n hn hmapping
  closed n part hn hpart hmapping := by
    rcases (lookedAt_iff h.grows h'.grows).mp hn with hn | hn
    · exact h'.grows (h.closed n part hn hpart hmapping)
    · exact h'.closed n part hn hpart hmapping
  reached n hn := by
    rcases (lookedAt_iff h.grows h'.grows).mp hn with hn | hn
    · obtain ⟨start, hstart, hpart⟩ := h.reached n hn
      exact ⟨start, List.mem_append_left _ hstart, hpart⟩
    · obtain ⟨start, hstart, hpart⟩ := h'.reached n hn
      exact ⟨start, List.mem_append_right _ hstart, hpart⟩
  nodup := Fields.nodup_keys_update h.nodup _
  origin e he := by
    rcases Fields.mem_update he with he | he
    · obtain ⟨n, hn, hdeclares⟩ := h.origin e he
      exact ⟨n, (lookedAt_iff h.grows h'.grows).mpr (Or.inl hn), hdeclares⟩
    · obtain ⟨n, hn, hdeclares⟩ := h'.origin e he
      exact ⟨n, (lookedAt_iff h.grows h'.grows).mpr (Or.inr hn), hdeclares⟩
  names n name property hn hdeclares := by
    refine Fields.mem_keys_update.mpr ?_
    rcases (lookedAt_iff h.grows h'.grows).mp hn with hn | hn
    · exact Or.inl (h.names n name property hn hdeclares)
    · exact Or.inr (h'.names n name property hn hdeclares)
  required name := by
    simp only [Properties.join, List.mem_append, h.required, h'.required,
      lookedAt_iff h.grows h'.grows, or_and_right, exists_or]

/-- A schema that is looked at adds what it declares and requires itself. -/
theorem schema (hkeys : KeysDistinct (nodes document)) (hn : n ∈ nodes document)
    (hnew : n.place ∉ seen) (htarget : s.follow n = .ok target)
    (hparts : s.itemsOf (target.field? "allOf") = .ok parts)
    (h : s.Gathered document parts (n.place :: seen) seen' inherited) {own : Fields Node}
    (hown : s.fieldsOf (target.field? "properties") = .ok own) (hnodup : (Fields.keys own).Nodup)
    {required : List String} (hrequired : s.textsOf (target.field? "required") = .ok required) :
    s.Gathered document [n] seen seen' (inherited.join { schemas := own, required }) := by
  have hlooked : ∀ {m}, LookedAt document seen seen' m
      ↔ m = n ∨ LookedAt document (n.place :: seen) seen' m :=
    lookedAt_cons_iff hkeys hn hnew h.grows
  have hself : LookedAt document seen seen' n := hlooked.mpr (Or.inl rfl)
  have hdeclares : ∀ {name property}, s.Declares n name property
      ↔ Fields.get? own name = some property := declares_iff htarget hown
  have hrequires : ∀ {name}, s.Requires n name ↔ name ∈ required := requires_iff htarget hrequired
  constructor
  case grows => exact List.Subset.trans (List.subset_cons_self _ _) h.grows
  case started =>
    intro m hm _
    rw [List.mem_singleton.mp hm]
    exact hself.2.1
  case closed =>
    intro m part hm hpart hmapping
    rcases hlooked.mp hm with rfl | hm
    · exact h.started part ((combines_iff htarget hparts).mp hpart) hmapping
    · exact h.closed m part hm hpart hmapping
  case reached =>
    intro m hm
    refine ⟨n, List.mem_singleton_self n, ?_⟩
    rcases hlooked.mp hm with rfl | hm
    · exact .refl
    · obtain ⟨start, hstart, hpart⟩ := h.reached m hm
      exact .head ((combines_iff htarget hparts).mpr hstart) hpart
  case nodup => exact Fields.nodup_keys_update h.nodup _
  case origin =>
    intro e he
    rcases Fields.mem_update he with he | he
    · obtain ⟨m, hm, hd⟩ := h.origin e he
      exact ⟨m, hlooked.mpr (Or.inr hm), hd⟩
    · exact ⟨n, hself, hdeclares.mpr (Fields.get?_of_mem hnodup he)⟩
  case names =>
    intro m name property hm hd
    refine Fields.mem_keys_update.mpr ?_
    rcases hlooked.mp hm with rfl | hm
    · exact Or.inr (Fields.mem_keys_of_get? (hdeclares.mp hd))
    · exact Or.inl (h.names m name property hm hd)
  case required =>
    intro name
    simp only [Properties.join, List.mem_append, h.required, ← hrequires, hlooked, or_and_right,
      exists_or, exists_eq_left]
    exact or_comm

/-- What a walk has found that goes on to the parts of a schema, one after the other. -/
theorem foldlM {answer : Node → Walk Properties} {base : List Place} {all : Properties}
    (hanswer : ∀ part ∈ parts, ∀ seen more seen', base ⊆ seen →
      (answer part).run.run seen = (.ok more, seen') → s.Gathered document [part] seen seen' more)
    (h : s.Gathered document starts seen seen₁ found) (hbase : base ⊆ seen₁)
    (hrun : (parts.foldlM (joinPart answer) found).run.run seen₁ = (.ok all, seen')) :
    s.Gathered document (starts ++ parts) seen seen' all := by
  induction parts generalizing starts seen₁ found with
  | nil =>
      obtain ⟨rfl, rfl⟩ := Walk.pure_ok.mp hrun
      rwa [List.append_nil]
  | cons part parts ih =>
      rw [List.foldlM_cons] at hrun
      obtain ⟨joined, seen₂, hjoined, hrun⟩ := Walk.bind_ok.mp hrun
      obtain ⟨others, seen₃, hothers, hpure⟩ := Walk.bind_ok.mp hjoined
      obtain ⟨rfl, rfl⟩ := Walk.pure_ok.mp hpure
      have hpart := hanswer part List.mem_cons_self seen₁ others seen₃ hbase hothers
      have hrest := ih (fun p hp => hanswer p (List.mem_cons_of_mem _ hp)) (h.append hpart)
        (List.Subset.trans hbase hpart.grows) hrun
      rwa [List.append_assoc, List.singleton_append] at hrest

end Gathered

/-- **A walk that has enough levels and comes to an end has found all that there is.** -/
theorem gathered_propertiesWithin (hs : s.Within document) (hkeys : KeysDistinct (nodes document))
    {levels : Nat} (hn : Located document n) {seen seen' : List Place} {found : Properties}
    (hlevels : remaining (mappingPlaces document) seen < levels)
    (h : (s.propertiesWithin levels n).run.run seen = (.ok found, seen')) :
    s.Gathered document [n] seen seen' found := by
  induction levels generalizing n seen seen' found with
  | zero => exact absurd hlevels (Nat.not_lt_zero _)
  | succ levels ih =>
      rw [propertiesWithin, run_propertiesStep] at h
      cases htarget : s.follow n with
      | error failure =>
          rw [htarget] at h
          cases h
      | ok target =>
          rw [htarget] at h
          dsimp only at h
          split at h
          · rename_i hopen
            have hmapping := hs.isMapping_of_follow htarget hopen.1
            have hlocated := hs.follow hn htarget
            obtain ⟨parts, inherited, own, required, hparts, hinherited, hown, hrequired, rfl⟩ :=
              expansion_ok h
            have hmem := hs.itemsOf (fun m hm => hlocated.field? hm) hparts
            -- The schema has been looked at when its parts are, so that fewer remain for them.
            have hfewer : remaining (mappingPlaces document) (n.place :: seen) < levels := by
              have hlt := remaining_cons_lt (hn.place_mem hmapping) hopen.2
              omega
            have hbelow : ∀ part ∈ parts, ∀ seen₁ more seen₂, n.place :: seen ⊆ seen₁ →
                (s.propertiesWithin levels part).run.run seen₁ = (.ok more, seen₂) →
                s.Gathered document [part] seen₁ seen₂ more := fun part hpart _ _ _ hsub hrun =>
              ih (hmem part hpart) (Nat.lt_of_le_of_lt (remaining_mono hsub) hfewer) hrun
            have hempty : s.Gathered document [] (n.place :: seen) (n.place :: seen) {} :=
              .nothing fun m hm => nomatch hm
            have hgathered := Gathered.foldlM hbelow hempty (List.Subset.refl _) hinherited
            exact hgathered.schema hkeys (hn.mem_of_isMapping hmapping) hopen.2 htarget hparts hown
              (hs.nodup_keys_fieldsOf hkeys (fun m hm => hlocated.field? hm) hown) hrequired
          · rename_i hclosed
            cases h
            refine .nothing fun m hm hmapping => ?_
            rw [List.mem_singleton.mp hm, isMapping_of_follow_ok htarget] at hmapping
            rw [List.mem_singleton.mp hm]
            exact not_not.mp fun hnew => hclosed ⟨Except.ok.inj hmapping, hnew⟩

/-- What a schema declares itself is found as it declares it, whatever its parts declare. -/
theorem get?_of_declares (hs : s.Within document) (hkeys : KeysDistinct (nodes document))
    {levels : Nat} (hn : Located document n) {seen seen' : List Place} (hnew : n.place ∉ seen)
    {found : Properties}
    (h : (s.propertiesWithin (levels + 1) n).run.run seen = (.ok found, seen')) {name : String}
    {property : Node} (hdeclares : s.Declares n name property) :
    Fields.get? found.schemas name = some property := by
  obtain ⟨target, htarget, hmapping⟩ := isMapping_some_ok hdeclares.isMapping
  rw [propertiesWithin, run_propertiesStep, htarget] at h
  dsimp only at h
  rw [if_pos ⟨hmapping.symm, hnew⟩] at h
  obtain ⟨parts, inherited, own, required, -, -, hown, -, rfl⟩ := expansion_ok h
  have hlocated := hs.follow hn htarget
  exact Fields.get?_update_of_get?
    (hs.nodup_keys_fieldsOf hkeys (fun m hm => hlocated.field? hm) hown)
    ((declares_iff htarget hown).mp hdeclares)

/-- The parts of a schema of the document are nodes of it, however deep they are. -/
theorem Within.isPartOf (hs : s.Within document) (hn : Located document n)
    (h : s.IsPartOf part n) : Located document part := by
  induction h with
  | refl => exact hn
  | tail _ hcombines ih => exact hs.combines ih hcombines

/-- What is part of a schema has been looked at when the walk from the schema is over. -/
theorem Gathered.lookedAt (hs : s.Within document) (hn : Located document n) {seen : List Place}
    {found : Properties} (h : s.Gathered document [n] [] seen found) (hpart : s.IsPartOf part n)
    (hmapping : s.isMapping (some part) = .ok true) : LookedAt document [] seen part := by
  refine ⟨hs.mem_nodes_of_isMapping (hs.isPartOf hn hpart) hmapping, ?_, List.not_mem_nil⟩
  induction hpart with
  | refl => exact h.started n (List.mem_singleton_self n) hmapping
  | tail hwhole hcombines ih =>
      -- The schema that combines the part is a mapping, so that it has been looked at itself.
      have hmem := hs.mem_nodes_of_isMapping (hs.isPartOf hn hwhole) hcombines.isMapping
      exact h.closed _ _ ⟨hmem, ih hcombines.isMapping, List.not_mem_nil⟩ hcombines hmapping

/-! ### Records -/

theorem recordField_mayGive {answer : Option Node → String → Extract TypeRef}
    {model name : String} {property : Node} {required : List String} {f : RecordField}
    (h : MayGive (recordField answer s model name property required) f) :
    f.name = name ∧ f.required = required.contains name ∧ IsMadeOf answer s model property f := by
  unfold recordField at h
  obtain ⟨fields, hfields, h⟩ := MayGive.of_lift_bind h
  obtain ⟨type, htype, h⟩ := MayGive.of_bind h
  obtain ⟨description, hdescription, h⟩ := MayGive.of_lift_bind h
  obtain rfl := MayGive.of_pure h
  refine ⟨rfl, rfl, htype, fields, hfields, hdescription, ?_⟩
  cases Fields.get? fields "default" with
  | none => rfl
  | some d => rfl

/-- **A record has the fields that its schema and all parts of it declare.** -/
theorem hasFieldsOf_record (hs : s.Wide document) (hkeys : KeysDistinct (nodes document))
    (hn : Located document n) {answer : Option Node → String → Extract TypeRef} {model : String}
    {fields : Fields Node} {made : Schema}
    (h : MayGive (record answer s model n fields) made) :
    ∃ recordFields isOpen, made.shape = .record recordFields isOpen
      ∧ HasFieldsOf answer s model n recordFields := by
  obtain ⟨p, p', h⟩ := h
  obtain ⟨found, recordFields, description, isOpen, hfound, hfields, rfl⟩ := record_ok h
  refine ⟨recordFields, isOpen, rfl, ?_⟩
  obtain ⟨seen, hrun⟩ : ∃ seen, (s.propertiesWithin s.levels n).run.run [] = (.ok found, seen) :=
    ⟨_, Prod.ext hfound rfl⟩
  have hgathered := gathered_propertiesWithin hs.toWithin hkeys hn hs.remaining_lt hrun
  have hmade : List.Forall₂ (fun e f => f.name = e.1 ∧ f.required = found.required.contains e.1
      ∧ IsMadeOf answer s model e.2 f) found.schemas recordFields :=
    (MayGive.of_mapM ⟨p, p', hfields⟩).imp fun _ _ h => recordField_mayGive h
  have hnames : Fields.keys found.schemas = recordFields.map RecordField.name := by
    rw [Fields.keys, ← List.forall₂_eq_eq_eq, List.forall₂_map_left_iff, List.forall₂_map_right_iff]
    exact hmade.imp fun _ _ h => h.1.symm
  constructor
  case nodup =>
    rw [← hnames]
    exact hgathered.nodup
  case declared =>
    intro f hf
    obtain ⟨e, he, hname, -, hmadeOf⟩ := exists_of_forall₂_right hmade hf
    obtain ⟨part, hpart, hdeclares⟩ := hgathered.origin e he
    obtain ⟨start, hstart, hpartOf⟩ := hgathered.reached part hpart
    rw [List.mem_singleton.mp hstart] at hpartOf
    exact ⟨part, e.2, hpartOf, hname ▸ hdeclares, hmadeOf⟩
  case complete =>
    intro part name property hpart hdeclares
    rw [← hnames]
    exact hgathered.names part name property
      (hgathered.lookedAt hs.toWithin hn hpart hdeclares.isMapping) hdeclares
  case required =>
    intro f hf
    obtain ⟨e, -, hname, hrequired, -⟩ := exists_of_forall₂_right hmade hf
    rw [hrequired, List.contains_iff_mem, hgathered.required, hname]
    constructor
    · rintro ⟨part, hpart, hrequires⟩
      obtain ⟨start, hstart, hpartOf⟩ := hgathered.reached part hpart
      rw [List.mem_singleton.mp hstart] at hpartOf
      exact ⟨part, hpartOf, hrequires⟩
    · rintro ⟨part, hpart, hrequires⟩
      exact ⟨part, hgathered.lookedAt hs.toWithin hn hpart hrequires.isMapping, hrequires⟩
  case own =>
    intro name property hdeclares
    obtain ⟨levels, hlevels⟩ := Nat.exists_eq_succ_of_ne_zero (Nat.ne_zero_of_lt hs.remaining_lt)
    rw [hlevels] at hrun
    have hget := get?_of_declares hs.toWithin hkeys hn List.not_mem_nil hrun hdeclares
    obtain ⟨f, hf, hname, -, hmadeOf⟩ := exists_of_forall₂_left hmade (Fields.mem_of_get? hget)
    exact ⟨f, hf, hname, hmadeOf⟩

end Scope

/-! ### The whole document -/

/--
**A record has the fields of all the schemas that it combines**, each of them once, however these
combine each other.  A field is required if any of them requires it, and what the schema declares
itself is as it declares it.
-/
theorem fields_of_record {d : CanonicalDocument} {linked : Linked} {s : Scope}
    {parts : Scope.Parts} (hlinked : Linked.ofFields d.fields = .ok linked)
    (hprepare : prepare {} d = .ok (s, parts)) {schema : Node}
    (hschema : Located linked.document schema) {answer : Option Node → String → Extract TypeRef}
    {model : String} {fields : Fields Node} {made : Schema} {p p' : Progress}
    (h : (Scope.record answer s model schema fields).run p = .ok (made, p')) :
    ∃ recordFields isOpen, made.shape = .record recordFields isOpen
      ∧ Scope.HasFieldsOf answer s model schema recordFields := by
  exact Scope.hasFieldsOf_record (prepare_wide hlinked hprepare).1 (keysDistinct_ofFields hlinked)
    hschema ⟨p, p', h⟩

/--
Cats, which are pets and also cats, and pets, which are cats of some age.  The default of the age
is a reference that leads nowhere.
-/
def catDocument : CanonicalDocument where
  info := [("title", .string "Cats")]
  components := [("schemas", .mapping [
    ("Cat", .mapping [
      ("required", .list [.string "name"]),
      ("properties", .mapping [
        ("name", .mapping [("type", .string "string"), ("default", .string "Tom")])]),
      ("allOf", .list [
        .mapping [("$ref", .string "#/components/schemas/Pet")],
        .mapping [("$ref", .string "#/components/schemas/Cat")]])]),
    ("Pet", .mapping [
      ("required", .list [.string "owner"]),
      ("properties", .mapping [
        ("name", .mapping [("type", .string "integer")]),
        ("owner", .mapping [("type", .string "string")])]),
      ("allOf", .list [
        .mapping [("$ref", .string "#/components/schemas/Cat")],
        .mapping [("properties", .mapping [
          ("age", .mapping [
            ("type", .string "integer"),
            ("default", .mapping [("$ref", .string "#/nope")])])])]])])])]

/-- What shows of a field of a record at once. -/
structure FieldShown where
  name : String
  type : TypeRef
  /-- A default that holds no other values, or why the reference that it is leads nowhere. -/
  default : Option (Reference.Fault ⊕ Scalar)
  required : Bool
  deriving DecidableEq

/-- What shows of the fields of a record. -/
def fieldsShown (made : Schema) : List FieldShown :=
  match made.shape with
  | .record fields _ => fields.map fun f => ⟨f.name, f.type, defaultShown f.default, f.required⟩
  | _ => []
where
  defaultShown : Deferred → Option (Reference.Fault ⊕ Scalar)
    | .scalar v => some (.inr v)
    | .broken fault => some (.inl fault)
    | .list _ | .mapping _ | .nothing => none

/-- The model that is made of the schema of cats. -/
def catRecord (s : Scope) (parts : Scope.Parts) : Option Schema :=
  (Fields.get? parts.schemas "Cat").bind fun cat =>
    ((Scope.record s.typeOf s "Cat" cat cat.fields).run {}).toOption.map Prod.fst

theorem fields_of_record_catDocument :
    ∃ linked s parts cat made recordFields isOpen,
      Linked.ofFields catDocument.fields = .ok linked
        ∧ prepare {} catDocument = .ok (s, parts) ∧ Fields.get? parts.schemas "Cat" = some cat
        ∧ Located linked.document cat ∧ catRecord s parts = some made
        ∧ fieldsShown made
          = [⟨"name", .primitive .string, some (.inr (.string "Tom")), true⟩,
            ⟨"age", .primitive .integer, some (.inl (.unresolvable "#/nope" "/nope")), false⟩,
            ⟨"owner", .primitive .string, some (.inr .null), true⟩]
        ∧ made.shape = .record recordFields isOpen
        ∧ Scope.HasFieldsOf s.typeOf s "Cat" cat recordFields := by
  obtain ⟨linked, hlinked⟩ := except_exists_ok (x := Linked.ofFields catDocument.fields)
    (by decide +kernel)
  obtain ⟨⟨s, parts⟩, hprepare⟩ := except_exists_ok (x := prepare {} catDocument)
    (by decide +kernel)
  have hshown : (prepare {} catDocument).toOption.bind
        (fun found => (catRecord found.1 found.2).map fieldsShown)
      = some [⟨"name", .primitive .string, some (.inr (.string "Tom")), true⟩,
          ⟨"age", .primitive .integer, some (.inl (.unresolvable "#/nope" "/nope")), false⟩,
          ⟨"owner", .primitive .string, some (.inr .null), true⟩] := by
    decide +kernel
  rw [hprepare] at hshown
  obtain ⟨made, hmade, hshown⟩ := Option.map_eq_some_iff.mp hshown
  obtain ⟨cat, hcat, hrun⟩ := Option.bind_eq_some_iff.mp hmade
  have hlocated : Located linked.document cat :=
    (prepare_wide hlinked hprepare).2.schemas.get? "Cat" cat hcat
  cases hrecord : (Scope.record s.typeOf s "Cat" cat cat.fields).run {} with
  | error failure =>
      rw [hrecord] at hrun
      cases hrun
  | ok result =>
      obtain ⟨recorded, p'⟩ := result
      rw [hrecord] at hrun
      obtain rfl := Option.some.inj hrun
      obtain ⟨recordFields, isOpen, hshape, hfields⟩ :=
        fields_of_record hlinked hprepare hlocated hrecord
      exact ⟨linked, s, parts, cat, recorded, recordFields, isOpen, hlinked, hprepare, hcat, hlocated,
        hmade, hshown, hshape, hfields⟩

end ApiClientGen.Extraction
