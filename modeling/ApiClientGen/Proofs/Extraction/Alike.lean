/-
Two scopes that see alike.

Two scopes may look at two documents, or at two places of one document, and find the same there.
What they look at is related node by node, each by the kind of what stands there: related nodes
look the same from outside, their parts are related, and so is what stands behind them.  What a
schema says of its type may be written in two ways, as long as it is the same that is said.  Only
whether two places are the same is ever asked of places, so the relation has to be one-to-one on
them.  Then whatever is asked of related nodes has the same answer in both scopes, and this is
shown for one function after the other, up from the values and schemas to the whole interface.
-/
import ApiClientGen.Proofs.Canonical.Kinds
import ApiClientGen.Proofs.Document.Related
import ApiClientGen.Proofs.Extraction.Properties
import ApiClientGen.Proofs.Extraction.Runs

namespace ApiClientGen.Extraction

open ApiClientGen.Canonical ApiClientGen.Document ApiClientGen.Reference ApiClientGen.Spec
  ApiClientGen.Text Extract

/-- A part behind a question that agrees with another one. -/
theorem agree_lift_bind {α β γ : Type} {Q : α → β → Prop} {x : Except Failure α}
    {y : Except Failure β} {f : α → Extract γ} {g : β → Extract γ} (h : Agree Q x y)
    (hfg : ∀ a b, Q a b → f a = g b) : (liftM x >>= f : Extract γ) = liftM y >>= g := by
  cases h with
  | error e => rfl
  | ok h => exact hfg _ _ h

theorem isTrue_some (n : Node) : isTrue (some n) = decide (n.value = .bool true) := by
  obtain ⟨place, v⟩ := n
  unfold isTrue
  split <;> simp_all

theorem isNothing_some (n : Node) : isNothing (some n) = decide (n.value = .null) := by
  obtain ⟨place, v⟩ := n
  unfold isNothing
  split <;> simp_all

/-- Two values that look the same from outside. -/
inductive SameShape : Value → Value → Prop where
  | same (v : Value) : SameShape v v
  | list {vs ws : List Value} (isEmpty : vs.isEmpty = ws.isEmpty) :
      SameShape (.list vs) (.list ws)
  | mapping {fields fields' : Fields Value} (isEmpty : fields.isEmpty = fields'.isEmpty)
      (ref : Fields.textAt? fields refKey = Fields.textAt? fields' refKey) :
      SameShape (.mapping fields) (.mapping fields')

namespace SameShape

variable {v w : Value} (h : SameShape v w)

include h

theorem isMapping : v.isMapping = w.isMapping := by cases h <;> rfl

theorem asText? : v.asText? = w.asText? := by cases h <;> rfl

theorem isSomething : v.isSomething = w.isSomething := by
  cases h with
  | same => rfl
  | list isEmpty => exact congrArg Bool.not isEmpty
  | mapping isEmpty => exact congrArg Bool.not isEmpty

theorem refText? : Reference.refText? v = Reference.refText? w := by
  cases h with
  | same => rfl
  | list => rfl
  | mapping isEmpty ref => exact ref

theorem eq_scalar (x : Scalar) : v = .scalar x ↔ w = .scalar x := by
  cases h <;> simp

end SameShape

namespace Scope

/--
A schema that is neither an enumeration of texts nor a record, and that is not another schema
under a new name: it has the type that it names.
-/
structure NamesType (s : Scope) (fields : Fields Node) : Prop where
  notEnumeration : s.isTextEnumeration fields = .ok false
  notRenamed : s.itemsOf (Fields.get? fields "allOf") = .ok []
  notRecord : s.isRecord fields = .ok false

/--
Two schemas that say the same of their type.  Null may be said in two ways, with the type or
beside it, where both are looked at.
-/
structure SameType (s t : Scope) (fields fields' : Fields Node) : Prop where
  named : Agree (fun a b => a.1 = b.1 ∧ (isTrue (Fields.get? fields "nullable") || a.2)
      = (isTrue (Fields.get? fields' "nullable") || b.2))
    (s.namedType fields) (t.namedType fields')
  nullable : isTrue (Fields.get? fields "nullable") = isTrue (Fields.get? fields' "nullable")
    ∨ s.NamesType fields

/-- **Two scopes that see alike** at nodes that are related by their kind. -/
structure Alike (s t : Scope) (R : Kind → Node → Node → Prop) : Prop where
  models : s.models = t.models
  levels : s.levels = t.levels
  depth : s.depth = t.depth
  shape : ∀ ⦃k n m⦄, R k n m → SameShape n.value m.value
  value : ∀ ⦃n m⦄, R .plain n m → n.value = m.value
  /-- Related nodes stand at the same place if those that they are related to do. -/
  place : ∀ ⦃k k' n m n' m'⦄, R k n m → R k' n' m' → (n.place = n'.place ↔ m.place = m'.place)
  field : ∀ ⦃k c key n m⦄, R k n m → k.Has key c →
    Option.Rel (R c) (Fields.get? n.fields key) (Fields.get? m.fields key)
  fields : ∀ ⦃k c n m⦄, R k n m → (∀ key, k.Has key c) →
    Fields.Related (fun _ => R c) n.fields m.fields
  items : ∀ ⦃k n m⦄, R k n m → List.Forall₂ (R k.item) n.items m.items
  type : ∀ ⦃n m⦄, R .schema n m → s.SameType t n.fields m.fields
  follow : ∀ ⦃k n m⦄, R k n m → Agree (R k) (s.follow n) (t.follow m)

/-- Two nodes behind which two scopes find related nodes. -/
def Seen (s t : Scope) (R : Node → Node → Prop) (n m : Node) : Prop :=
  Agree R (s.follow n) (t.follow m)

/-- Fields of things of a kind, related key by key. -/
def SameFields (R : Kind → Node → Node → Prop) (k : Kind) (fields fields' : Fields Node) : Prop :=
  ∀ key ⦃c⦄, k.Has key c → Option.Rel (R c) (Fields.get? fields key) (Fields.get? fields' key)

theorem agree_behind {s t : Scope} {R : Node → Node → Prop} {n m : Option Node}
    (h : Option.Rel (s.Seen t R) n m) : Agree (Option.Rel R) (s.behind n) (t.behind m) := by
  cases h with
  | none => exact .ok .none
  | some h => exact Agree.bind h fun _ _ hnm => .ok (.some hnm)

variable {s t : Scope} {R : Kind → Node → Node → Prop} {k c : Kind} {n m : Option Node}
  {a b : Node} {fields fields' : Fields Node}

/-! ### Nodes with the same value -/

section

variable {S : Node → Node → Prop} (hvalue : ∀ n m, S n m → n.value = m.value)
  (hitems : ∀ n m, S n m → List.Forall₂ S n.items m.items)
  (hfollow : ∀ n m, S n m → s.Seen t S n m)

include hvalue hitems hfollow

theorem namedType_eq (hfields : Fields.Related (fun _ => S) fields fields') :
    s.namedType fields = t.namedType fields' := by
  have hbehind : ∀ {n m : Option Node}, Option.Rel S n m →
      Agree (Option.Rel S) (s.behind n) (t.behind m) :=
    fun hnm => agree_behind (optionRel_mono hnm hfollow)
  have htext : ∀ {n m : Option Node}, Option.Rel S n m → s.anyTextOf n = t.anyTextOf m :=
    fun hnm => (hbehind hnm).bind_eq fun _ _ hnm => by
      cases hnm with
      | none => rfl
      | some hnm => exact congrArg (fun v => Except.ok (Value.asText? v)) (hvalue _ _ hnm)
  unfold Scope.namedType
  refine (hbehind (hfields.get? "type")).bind_eq fun type type' htype => ?_
  cases htype with
  | none => rfl
  | @some type type' htype =>
      dsimp only
      rw [hvalue _ _ htype]
      split
      · have hall := hitems _ _ htype
        refine (Agree.filterM hall fun _ _ hab => by rw [htext (.some hab)]).bind_eq
          fun proper proper' hproper => ?_
        rw [hproper.length_eq, hall.length_eq, htext (forall₂_head? hproper)]
      · rfl

/-- **Scopes that find the same values see alike**, whatever the kinds of these are. -/
theorem Alike.of_value (hmodels : s.models = t.models) (hlevels : s.levels = t.levels)
    (hdepth : s.depth = t.depth)
    (hplace : ∀ n m n' m', S n m → S n' m' → (n.place = n'.place ↔ m.place = m'.place))
    (hfields : ∀ n m, S n m → Fields.Related (fun _ => S) n.fields m.fields) :
    s.Alike t fun _ => S where
  models := hmodels
  levels := hlevels
  depth := hdepth
  shape _ n m hnm := hvalue n m hnm ▸ .same n.value
  value n m hnm := hvalue n m hnm
  place _ _ n m n' m' := hplace n m n' m'
  field _ _ key n m hnm _ := (hfields n m hnm).get? key
  fields _ _ n m hnm _ := hfields n m hnm
  items _ n m hnm := hitems n m hnm
  type n m hnm := by
    have hnullable : isTrue (Fields.get? n.fields "nullable")
        = isTrue (Fields.get? m.fields "nullable") := by
      have hget := (hfields n m hnm).get? "nullable"
      generalize Fields.get? n.fields "nullable" = a at hget
      generalize Fields.get? m.fields "nullable" = b at hget
      cases hget with
      | none => rfl
      | some hab => rw [isTrue_some, isTrue_some, hvalue _ _ hab]
    exact ⟨.of_eq (fun _ => ⟨rfl, by rw [hnullable]⟩)
      (namedType_eq hvalue hitems hfollow (hfields n m hnm)), Or.inl hnullable⟩
  follow _ n m hnm := hfollow n m hnm

end

namespace Alike

variable (h : s.Alike t R)

include h

theorem seen (hnm : Option.Rel (R k) n m) : Option.Rel (s.Seen t (R k)) n m :=
  optionRel_mono hnm fun _ _ hnm => h.follow hnm

/-! ### Looking at values -/

theorem sameFields (hab : R k a b) : SameFields R k a.fields b.fields :=
  fun _ _ hkey => h.field hab hkey

theorem fieldsOf (hnm : Option.Rel (s.Seen t (R k)) n m) :
    Agree (SameFields R k) (s.fieldsOf n) (t.fieldsOf m) :=
  (agree_behind hnm).bind fun _ _ hnm => .ok <| by
    cases hnm with
    | none => exact fun _ _ _ => .none
    | some hnm => exact h.sameFields hnm

/-- The entries of a table. -/
theorem tableOf (hk : ∀ key, k.Has key c) (hnm : Option.Rel (s.Seen t (R k)) n m) :
    Agree (Fields.Related fun _ => R c) (s.fieldsOf n) (t.fieldsOf m) :=
  (agree_behind hnm).bind fun _ _ hnm => .ok <| by
    cases hnm with
    | none => exact .nil
    | some hnm => exact h.fields hnm hk

theorem itemsOf (hnm : Option.Rel (s.Seen t (R k)) n m) :
    Agree (List.Forall₂ (R k.item)) (s.itemsOf n) (t.itemsOf m) :=
  (agree_behind hnm).bind fun _ _ hnm => .ok <| by
    cases hnm with
    | none => exact .nil
    | some hnm => exact h.items hnm

theorem anyTextOf (hnm : Option.Rel (R k) n m) : s.anyTextOf n = t.anyTextOf m :=
  (agree_behind (h.seen hnm)).bind_eq fun _ _ hnm => by
    cases hnm with
    | none => rfl
    | some hnm => exact congrArg Except.ok (h.shape hnm).asText?

theorem textOf (hnm : Option.Rel (R k) n m) : s.textOf n = t.textOf m := by
  rw [Scope.textOf, Scope.textOf, h.anyTextOf hnm]

theorem isSomething (hnm : Option.Rel (R k) n m) : s.isSomething n = t.isSomething m :=
  (agree_behind (h.seen hnm)).bind_eq fun _ _ hnm => by
    cases hnm with
    | none => rfl
    | some hnm => exact congrArg Except.ok (h.shape hnm).isSomething

theorem isMapping (hnm : Option.Rel (R k) n m) : s.isMapping n = t.isMapping m :=
  (agree_behind (h.seen hnm)).bind_eq fun _ _ hnm => by
    cases hnm with
    | none => rfl
    | some hnm => exact congrArg Except.ok (h.shape hnm).isMapping

theorem textsOf (hnm : Option.Rel (R k) n m) : s.textsOf n = t.textsOf m :=
  (h.itemsOf (h.seen hnm)).bind_eq fun _ _ hitems => by
    rw [mapM_eq_of_forall₂ hitems fun _ _ hab => h.anyTextOf (.some hab)]

theorem isTrue (hnm : Option.Rel (R k) n m) : isTrue n = isTrue m := by
  cases hnm with
  | none => rfl
  | some hnm => rw [isTrue_some, isTrue_some, decide_eq_decide.mpr ((h.shape hnm).eq_scalar _)]

theorem isNothing (hnm : Option.Rel (R k) n m) : isNothing n = isNothing m := by
  cases hnm with
  | none => rfl
  | some hnm =>
      rw [isNothing_some, isNothing_some, decide_eq_decide.mpr ((h.shape hnm).eq_scalar _)]

theorem modelOf? (hab : R k a b) : s.modelOf? a = t.modelOf? b := by
  have href : a.ref? = b.ref? := (h.shape hab).refText?
  unfold Scope.modelOf?
  rw [href, h.models]

theorem wholeWithin (levels : Nat) (hab : R .plain a b) :
    s.wholeWithin levels a = t.wholeWithin levels b := by
  induction levels generalizing a b with
  | zero => rfl
  | succ levels ih =>
      unfold Scope.wholeWithin
      refine (h.follow hab).bind_eq fun target target' htarget => ?_
      rw [h.value htarget]
      split
      · rfl
      · rw [mapM_eq_of_forall₂ (h.items htarget) fun _ _ hab => ih hab]
      · rw [mapM_eq_of_forall₂ (h.fields htarget fun _ => ⟨rfl, by decide⟩) fun e f he => by
          rw [he.1, ih he.2]]

theorem whole (hab : R .plain a b) : s.whole a = t.whole b := by
  unfold Scope.whole
  rw [h.depth, h.wholeWithin t.depth hab]

theorem shown (hab : R .plain a b) : s.shown a = t.shown b := by
  rw [Scope.shown, Scope.shown, h.whole hab]

/-! ### Values that are looked at later -/

/-- What stands behind related nodes is related, and where nothing does, for the same fault. -/
theorem resolve (hab : R k a b) : Agree (R k) (s.resolve a) (t.resolve b) := by
  have hfollow : Agree (R k) (s.follow a) (t.follow b) := h.follow hab
  unfold Scope.follow at hfollow
  cases hs : s.resolve a <;> cases ht : t.resolve b <;> rw [hs, ht] at hfollow <;>
    cases hfollow
  · exact .error _
  · exact .ok ‹_›

theorem deferredWithin (levels : Nat) (hab : R .plain a b) :
    Deferred.within s.resolve levels a = Deferred.within t.resolve levels b := by
  induction levels generalizing a b with
  | zero => rfl
  | succ levels ih =>
      unfold Deferred.within
      have hresolve := h.resolve hab
      generalize s.resolve a = x at hresolve
      generalize t.resolve b = y at hresolve
      cases hresolve with
      | error fault => rfl
      | @ok target target' htarget =>
          have hitems : target.items.map (fun item (_ : Unit) => Deferred.within s.resolve levels item)
              = target'.items.map fun item _ => Deferred.within t.resolve levels item :=
            map_eq_of_forall₂ (h.items htarget) fun _ _ hab => funext fun _ => ih hab
          have hfields : target.fields.map
                (fun e => (e.1, fun (_ : Unit) => Deferred.within s.resolve levels e.2))
              = target'.fields.map fun e => (e.1, fun _ => Deferred.within t.resolve levels e.2) :=
            map_eq_of_forall₂ (h.fields htarget fun _ => ⟨rfl, by decide⟩) fun e f he => by
              rw [he.1, ih he.2]
          dsimp only
          rw [h.value htarget, hitems, hfields, Node.ref?, h.value hab]
          rfl

/-- A value that is looked at later shows the same. -/
theorem deferred (hab : R .plain a b) : s.deferred a = t.deferred b :=
  h.deferredWithin Deferred.lookLimit hab

/-! ### Enumerations -/

/-- The values that an enumeration lists, null apart, are related. -/
theorem proper {l l' : List Node} (hl : List.Forall₂ (R k) l l') :
    List.Forall₂ (R k) (l.filter fun n => !Extraction.isNothing (some n))
      (l'.filter fun n => !Extraction.isNothing (some n)) :=
  List.rel_filter (fun _ _ hab => by
    show _ = true ↔ _ = true
    rw [h.isNothing (.some hab)]) hl

theorem listedValue (hab : R .plain a b) : s.listedValue a = t.listedValue b := by
  rw [Scope.listedValue, Scope.listedValue, h.whole hab]

theorem enumeration (name : String) (hfields : SameFields R .schema fields fields') :
    s.enumeration name fields = t.enumeration name fields' := by
  have henum : Option.Rel (R .plain) _ _ := hfields "enum" (by decide)
  have hdescription : Option.Rel (R .plain) _ _ := hfields "description" (by decide)
  unfold Scope.enumeration
  refine (h.itemsOf (h.seen henum)).bind_eq fun items items' hitems => ?_
  rw [mapM_eq_of_forall₂ (h.proper hitems) fun _ _ hab => h.listedValue hab, h.textOf hdescription]

theorem isTextEnumeration (hfields : SameFields R .schema fields fields') :
    s.isTextEnumeration fields = t.isTextEnumeration fields' := by
  have henum : Option.Rel (R .plain) _ _ := hfields "enum" (by decide)
  unfold Scope.isTextEnumeration
  refine (h.itemsOf (h.seen henum)).bind_eq fun items items' hitems => ?_
  have hproper := h.proper hitems
  dsimp only
  rw [forall₂_isEmpty hproper,
    allM_eq_of_forall₂ hproper fun _ _ hab => by rw [h.anyTextOf (.some hab)]]

/-! ### Properties -/

theorem isRecord (hfields : SameFields R .schema fields fields') :
    s.isRecord fields = t.isRecord fields' := by
  have hproperties : Option.Rel (R (.table .schema)) _ _ := hfields "properties" (by decide)
  have hparts : Option.Rel (R (.list .schema)) _ _ := hfields "allOf" (by decide)
  unfold Scope.isRecord
  dsimp only
  rw [h.isMapping hproperties, h.isSomething hproperties]
  refine except_bind_congr fun _ _ => except_bind_congr fun _ _ => ?_
  split
  · rfl
  · refine (h.itemsOf (h.seen hparts)).bind_eq fun parts parts' hparts => ?_
    rw [hparts.length_eq]

end Alike

/-- Places of related schemas. -/
def Came (R : Kind → Node → Node → Prop) (place place' : Place) : Prop :=
  ∃ n m, R .schema n m ∧ n.place = place ∧ m.place = place'

/-- **Walks that find the same** from places of related schemas on, and add such places. -/
def AlikeWalks {α β : Type} (R : Kind → Node → Node → Prop) (Q : α → β → Prop) (w : Walk α)
    (w' : Walk β) : Prop :=
  ∀ seen seen', List.Forall₂ (Came R) seen seen' →
    Agree Q (w.run.run seen).1 (w'.run.run seen').1
      ∧ List.Forall₂ (Came R) (w.run.run seen).2 (w'.run.run seen').2

namespace AlikeWalks

variable {α β γ δ : Type} {Q : α → β → Prop} {Q' : γ → δ → Prop}

theorem pure {a : α} {b : β} (h : Q a b) : AlikeWalks R Q (pure a) (pure b) :=
  fun _ _ hseen => ⟨.ok h, hseen⟩

theorem lift {x : Except Failure α} {y : Except Failure β} (h : Agree Q x y) :
    AlikeWalks R Q (liftM x) (liftM y) :=
  fun _ _ hseen => ⟨h, hseen⟩

theorem bind {w : Walk α} {w' : Walk β} {f : α → Walk γ} {g : β → Walk δ}
    (h : AlikeWalks R Q w w') (hfg : ∀ a b, Q a b → AlikeWalks R Q' (f a) (g b)) :
    AlikeWalks R Q' (w >>= f) (w' >>= g) := by
  intro seen seen' hseen
  obtain ⟨hfound, hadded⟩ := h seen seen' hseen
  rw [Walk.run_bind, Walk.run_bind]
  rcases hrun : w.run.run seen with ⟨found, added⟩
  rcases hrun' : w'.run.run seen' with ⟨found', added'⟩
  rw [hrun, hrun'] at hfound hadded
  dsimp only at hfound hadded
  cases hfound with
  | error e => exact ⟨.error e, hadded⟩
  | ok hab => exact hfg _ _ hab added added' hadded

theorem foldlM {f : α → Node → Walk α} {g : β → Node → Walk β} {l l' : List Node}
    (hl : List.Forall₂ (R .schema) l l') {a : α} {b : β} (hab : Q a b)
    (hfg : ∀ a b n m, Q a b → R .schema n m → AlikeWalks R Q (f a n) (g b m)) :
    AlikeWalks R Q (l.foldlM f a) (l'.foldlM g b) := by
  induction hl generalizing a b with
  | nil => exact pure hab
  | cons hnm _ ih =>
      rw [List.foldlM_cons, List.foldlM_cons]
      exact (hfg _ _ _ _ hab hnm).bind fun _ _ hab => ih hab

end AlikeWalks

/-- The same properties, found at related nodes. -/
def SameProperties (R : Kind → Node → Node → Prop) (found found' : Properties) : Prop :=
  Fields.Related (fun _ => R .schema) found.schemas found'.schemas ∧ found.required = found'.required

theorem SameProperties.join {found found' more more' : Properties}
    (h : SameProperties R found found') (hmore : SameProperties R more more') :
    SameProperties R (found.join more) (found'.join more') :=
  ⟨h.1.update hmore.1, congrArg₂ _ h.2 hmore.2⟩

namespace Alike

variable (h : s.Alike t R)

include h

/-- A place was seen in one scope if it was in the other. -/
theorem mem_iff {seen seen' : List Place} (hseen : List.Forall₂ (Came R) seen seen')
    (hab : R k a b) : a.place ∈ seen ↔ b.place ∈ seen' := by
  induction hseen with
  | nil => simp
  | cons hplace _ ih =>
      obtain ⟨n, m, hnm, rfl, rfl⟩ := hplace
      rw [List.mem_cons, List.mem_cons, h.place hab hnm, ih]

theorem field? (hab : R k a b) {key : String} (hkey : k.Has key c) :
    Option.Rel (R c) (a.field? key) (b.field? key) := by
  rw [← get?_fields_node, ← get?_fields_node]
  exact h.field hab hkey

theorem expansion {f g : Node → Walk Properties}
    (hfg : ∀ n m, R .schema n m → AlikeWalks R (SameProperties R) (f n) (g m))
    (hab : R .schema a b) :
    AlikeWalks R (SameProperties R) (s.expansion f a) (t.expansion g b) := by
  have hparts : Option.Rel (R (.list .schema)) _ _ := h.field? hab (show Kind.Has _ "allOf" _ by decide)
  have hproperties : Option.Rel (R (.table .schema)) _ _ :=
    h.field? hab (show Kind.Has _ "properties" _ by decide)
  have hrequired : Option.Rel (R .plain) _ _ :=
    h.field? hab (show Kind.Has _ "required" _ by decide)
  unfold Scope.expansion
  refine (AlikeWalks.lift (h.itemsOf (h.seen hparts))).bind fun parts parts' hparts => ?_
  have hjoin : ∀ found found' n m, SameProperties R found found' → R .schema n m →
      AlikeWalks R (SameProperties R) (joinPart f found n) (joinPart g found' m) :=
    fun _ _ n m hfound hnm => (hfg n m hnm).bind fun _ _ hmore => .pure (hfound.join hmore)
  refine (AlikeWalks.foldlM hparts ⟨.nil, rfl⟩ hjoin).bind fun inherited inherited' hinherited => ?_
  refine (AlikeWalks.lift (h.tableOf (fun _ => ⟨rfl, by decide⟩) (h.seen hproperties))).bind
    fun own own' hown => ?_
  rw [h.textsOf hrequired]
  refine (AlikeWalks.lift (Agree.of_eq (Q := (· = ·)) (fun _ => rfl) rfl)).bind
    fun required required' hrequired => ?_
  exact .pure (hinherited.join ⟨hown, hrequired⟩)

theorem propertiesWithin (levels : Nat) (hab : R .schema a b) :
    AlikeWalks R (SameProperties R) (s.propertiesWithin levels a) (t.propertiesWithin levels b) := by
  induction levels generalizing a b with
  | zero => exact .pure ⟨.nil, rfl⟩
  | succ levels ih =>
      intro seen seen' hseen
      rw [Scope.propertiesWithin, Scope.propertiesWithin, run_propertiesStep, run_propertiesStep]
      have htarget := h.follow hab
      generalize s.follow a = x at htarget
      generalize t.follow b = y at htarget
      cases htarget with
      | error e => exact ⟨.error e, hseen⟩
      | @ok target target' htarget =>
          dsimp only
          simp only [(h.shape htarget).isMapping, h.mem_iff hseen hab]
          split
          · exact h.expansion (fun n m hnm => ih hnm) htarget _ _
              (.cons ⟨a, b, hab, rfl, rfl⟩ hseen)
          · exact ⟨.ok ⟨.nil, rfl⟩, hseen⟩

theorem properties (hab : R .schema a b) :
    Agree (SameProperties R) (s.properties a) (t.properties b) := by
  unfold Scope.properties
  rw [h.levels]
  exact (h.propertiesWithin t.levels hab [] [] .nil).1

/-! ### Records -/

section

variable {f g : Option Node → String → Extract TypeRef}
  (hfg : ∀ n m hint, Option.Rel (R .schema) n m → f n hint = g m hint)

include hfg

theorem recordField (model name : String) (hab : R .schema a b) (required : List String) :
    recordField f s model name a required = recordField g t model name b required := by
  unfold Scope.recordField
  refine agree_lift_bind (h.fieldsOf (h.seen (.some hab))) fun fields fields' hfields => ?_
  have hdescription : Option.Rel (R .plain) _ _ := hfields "description" (by decide)
  have hdefault : Option.Rel (R .plain) _ _ := hfields "default" (by decide)
  rw [hfg _ _ _ (.some hab), h.textOf hdescription]
  refine bind_congr fun type => lift_bind_congr fun description _ => ?_
  generalize Fields.get? fields "default" = default at hdefault
  generalize Fields.get? fields' "default" = default' at hdefault
  cases hdefault with
  | none => rw [Option.map_none, Option.map_none]
  | some hab => rw [Option.map_some, Option.map_some, h.deferred hab]

theorem record (name : String) (hab : R .schema a b) (hfields : SameFields R .schema fields fields') :
    record f s name a fields = record g t name b fields' := by
  have hdescription : Option.Rel (R .plain) _ _ := hfields "description" (by decide)
  have hadditional : Option.Rel (R .schema) _ _ := hfields "additionalProperties" (by decide)
  unfold Scope.record
  refine agree_lift_bind (h.properties hab) fun found found' hfound => ?_
  have hrecordFields : (found.schemas.mapM fun e =>
        Scope.recordField f s name e.1 e.2 found.required)
      = found'.schemas.mapM fun e => Scope.recordField g t name e.1 e.2 found'.required :=
    mapM_eq_of_forall₂ hfound.1 fun e e' he => by
      rw [he.1, hfound.2, h.recordField hfg name e'.1 he.2]
  dsimp only
  rw [hrecordFields, h.textOf hdescription, h.isMapping hadditional, h.isTrue hadditional]

/-! ### Types -/

theorem namedTypeOf (hfields : SameFields R .schema fields fields') {nullable nullable' : Bool}
    (hnamed : Agree (fun a b => a.1 = b.1 ∧ (nullable || a.2) = (nullable' || b.2))
      (s.namedType fields) (t.namedType fields')) (hint : String) :
    namedTypeOf f s fields hint nullable = namedTypeOf g t fields' hint nullable' := by
  have hadditional : Option.Rel (R .schema) _ _ := hfields "additionalProperties" (by decide)
  have hitems : Option.Rel (R .schema) _ _ := hfields "items" (by decide)
  have hformat : Option.Rel (R .plain) _ _ := hfields "format" (by decide)
  unfold Scope.namedTypeOf
  refine agree_lift_bind hnamed fun ⟨name, hasNull⟩ ⟨name', hasNull'⟩ ⟨hname, hnull⟩ => ?_
  dsimp only at hname hnull ⊢
  rw [hname, hnull, h.anyTextOf hformat, hfg _ _ _ hitems, hfg _ _ _ hadditional,
    h.isMapping hadditional, optionRel_isSome hadditional]

theorem ownTypeOf {target target' : Node} (hab : R .schema a b) (htarget : R .schema target target')
    (hnullable : Extraction.isTrue (Fields.get? target.fields "nullable")
      = Extraction.isTrue (Fields.get? target'.fields "nullable")) (hint : String) :
    ownTypeOf f s a target hint (Extraction.isTrue (Fields.get? target.fields "nullable"))
      = ownTypeOf g t b target' hint (Extraction.isTrue (Fields.get? target'.fields "nullable")) := by
  have hrecord : (fun name => Scope.record f s name a target.fields)
      = fun name => Scope.record g t name b target'.fields :=
    funext fun name => h.record hfg name hab (h.sameFields htarget)
  unfold Scope.ownTypeOf
  rw [h.isRecord (h.sameFields htarget), hrecord,
    h.namedTypeOf hfg (h.sameFields htarget) (h.type htarget).named, hnullable]

omit hfg in
/-- A schema that has the type that it names does so in both scopes. -/
theorem namesType (hfields : SameFields R .schema fields fields') (hnames : s.NamesType fields) :
    t.NamesType fields' where
  notEnumeration := h.isTextEnumeration hfields ▸ hnames.notEnumeration
  notRenamed := by
    have hparts : Option.Rel (R (.list .schema)) _ _ := hfields "allOf" (by decide)
    have hagree := h.itemsOf (h.seen hparts)
    rw [hnames.notRenamed] at hagree
    generalize t.itemsOf (Fields.get? fields' "allOf") = parts at hagree
    cases hagree with
    | ok hnil => rw [List.forall₂_nil_left_iff.mp hnil]
  notRecord := h.isRecord hfields ▸ hnames.notRecord

omit h hfg in
theorem typeOfMapping_of_namesType {target : Node} (hnames : s.NamesType target.fields) (a : Node)
    (hint : String) :
    Scope.typeOfMapping f s a target hint = Scope.namedTypeOf f s target.fields hint
      (Extraction.isTrue (Fields.get? target.fields "nullable")) := by
  unfold Scope.typeOfMapping Scope.ownTypeOf
  dsimp only
  rw [hnames.notEnumeration, hnames.notRenamed, hnames.notRecord]
  rfl

theorem typeOfMapping {target target' : Node} (hab : R .schema a b)
    (htarget : R .schema target target') (hint : String) :
    typeOfMapping f s a target hint = typeOfMapping g t b target' hint := by
  have hfields := h.sameFields htarget
  rcases (h.type htarget).nullable with hnullable | hnames
  · have hparts : Option.Rel (R (.list .schema)) _ _ := hfields "allOf" (by decide)
    have hproperties : Option.Rel (R (.table .schema)) _ _ := hfields "properties" (by decide)
    have henumeration : (fun name => liftM (s.enumeration name target.fields) :
          String → Extract Schema) = fun name => liftM (t.enumeration name target'.fields) :=
      funext fun name => by rw [h.enumeration name hfields]
    unfold Scope.typeOfMapping
    dsimp only
    rw [h.isTextEnumeration hfields, h.ownTypeOf hfg hab htarget hnullable, hnullable, henumeration]
    refine lift_bind_congr fun isText _ => ?_
    split
    · rfl
    · refine agree_lift_bind (h.itemsOf (h.seen hparts)) fun parts parts' hparts => ?_
      rw [hparts.length_eq, h.isSomething hproperties, hfg _ _ _ (forall₂_head? hparts)]
  · rw [typeOfMapping_of_namesType hnames, typeOfMapping_of_namesType (h.namesType hfields hnames),
      h.namedTypeOf hfg hfields (h.type htarget).named]

end

/-- The same call in both scopes. -/
structure SameCall (R : Kind → Node → Node → Prop) (c c' : Call) : Prop where
  opened : List.Forall₂ (Came R) c.opened c'.opened
  schema : Option.Rel (R .schema) c.schema c'.schema
  hint : c.hint = c'.hint

/-- **The same call has the same type**, to every number of levels. -/
theorem typeWithin (levels : Nat) {c c' : Call} (hc : SameCall R c c') :
    s.typeWithin levels c = t.typeWithin levels c' := by
  induction levels generalizing c c' with
  | zero => rfl
  | succ levels ih =>
      obtain ⟨opened, schema, hint⟩ := c
      obtain ⟨opened', schema', hint'⟩ := c'
      obtain ⟨hopened, hschema, rfl⟩ := hc
      dsimp only at hopened hschema
      unfold Scope.typeWithin Scope.typeStep
      cases hschema with
      | none => rfl
      | @some schema schema' hschema =>
          dsimp only
          rw [h.modelOf? hschema]
          refine lift_bind_congr fun model _ => ?_
          cases model with
          | some model => rfl
          | none =>
              refine agree_lift_bind (h.follow hschema) fun target target' htarget => ?_
              have hcontains : opened.contains target.place = opened'.contains target'.place := by
                rw [Bool.eq_iff_iff, List.contains_iff_mem, List.contains_iff_mem]
                exact h.mem_iff hopened htarget
              have hinner : ∀ n m hint, Option.Rel (R .schema) n m →
                  s.typeWithin levels ⟨target.place :: opened, n, hint⟩
                    = t.typeWithin levels ⟨target'.place :: opened', m, hint⟩ :=
                fun n m hint hnm =>
                  ih ⟨.cons ⟨target, target', htarget, rfl, rfl⟩ hopened, hnm, rfl⟩
              rw [(h.shape htarget).isMapping, hcontains, h.typeOfMapping hinner hschema htarget hint]

theorem typeOf (hnm : Option.Rel (R .schema) n m) (hint : String) :
    s.typeOf n hint = t.typeOf m hint := by
  unfold Scope.typeOf
  rw [h.levels]
  exact h.typeWithin t.levels ⟨.nil, hnm, rfl⟩

/-! ### Schemas of the whole document -/

theorem component (name : String) (hab : R .schema a b) : s.component name a = t.component name b := by
  unfold Scope.component
  rw [h.modelOf? hab]
  refine lift_bind_congr fun model _ => ?_
  cases model with
  | some model => rfl
  | none =>
      refine agree_lift_bind (h.fieldsOf (h.seen (.some hab))) fun fields fields' hfields => ?_
      have henum : Option.Rel (R .plain) _ _ := hfields "enum" (by decide)
      have hdescription : Option.Rel (R .plain) _ _ := hfields "description" (by decide)
      rw [optionRel_isSome henum, h.enumeration name hfields, h.isRecord hfields,
        h.record (fun _ _ hint hnm => h.typeOf hnm hint) name hab hfields,
        h.typeOf (.some hab), h.textOf hdescription]

theorem components (hfields : Fields.Related (fun _ => R .schema) fields fields') :
    s.components fields = t.components fields' := by
  refine forM_eq_of_forall₂ hfields fun e e' he => ?_
  rw [h.models, he.1]
  split
  · rw [h.component _ he.2]
  · rfl

/-! ### Parameters, bodies and responses -/

/-- What stands for the media types that a content has. -/
theorem mediaOf (hnm : Option.Rel (s.Seen t (R (.table .media))) n m) :
    Agree (Fields.Related fun _ => R .media) (s.fieldsOf n) (t.fieldsOf m) :=
  h.tableOf (fun _ => ⟨rfl, by decide⟩) hnm

/-- The schema that a media type has. -/
theorem schemaOf (hnm : Option.Rel (R .media) n m) :
    Agree (fun fields fields' => Option.Rel (R .schema) (Fields.get? fields "schema")
      (Fields.get? fields' "schema")) (s.fieldsOf n) (t.fieldsOf m) :=
  (h.fieldsOf (h.seen hnm)).mono fun _ _ hfields => hfields "schema" (by decide)

theorem contentSchema (hnm : Option.Rel (R (.table .media)) n m) :
    Agree (Option.Rel (R .schema)) (s.contentSchema n) (t.contentSchema m) := by
  unfold Scope.contentSchema
  refine (h.mediaOf (h.seen hnm)).bind fun media media' hmedia => ?_
  rw [hmedia.keys]
  cases pickMediaType (Fields.keys media') with
  | none => exact .ok .none
  | some mediaType =>
      dsimp only
      split
      · exact .ok .none
      · exact (h.schemaOf (hmedia.get? mediaType)).bind fun _ _ hschema => .ok hschema

theorem parameterSchema (hfields : SameFields R .parameter fields fields') :
    Agree (Option.Rel (R .schema)) (s.parameterSchema fields) (t.parameterSchema fields') := by
  have hschema : Option.Rel (R .schema) _ _ := hfields "schema" (by decide)
  have hcontent : Option.Rel (R (.table .media)) _ _ := hfields "content" (by decide)
  unfold Scope.parameterSchema
  dsimp only
  rw [h.isNothing hschema]
  split
  · exact h.contentSchema hcontent
  · exact .ok hschema

theorem typeOfSomething (hnm : Option.Rel (R .schema) n m) (hint : String) :
    s.typeOfSomething n hint = t.typeOfSomething m hint := by
  unfold Scope.typeOfSomething
  rw [h.isSomething hnm, h.typeOf hnm]

theorem parameter? (hint : String) (hab : s.Seen t (R .parameter) a b) :
    s.parameter? hint a = t.parameter? hint b := by
  unfold Scope.parameter?
  refine agree_lift_bind (h.fieldsOf (.some hab)) fun fields fields' hfields => ?_
  have hname : Option.Rel (R .plain) _ _ := hfields "name" (by decide)
  have hplace : Option.Rel (R .plain) _ _ := hfields "in" (by decide)
  have hrequired : Option.Rel (R .plain) _ _ := hfields "required" (by decide)
  have hdescription : Option.Rel (R .plain) _ _ := hfields "description" (by decide)
  rw [h.textOf hname, h.anyTextOf hplace]
  refine lift_bind_congr fun name _ => lift_bind_congr fun place _ => ?_
  split
  · refine agree_lift_bind (h.parameterSchema hfields) fun schema schema' hschema => ?_
    rw [h.typeOfSomething hschema, h.isTrue hrequired, h.textOf hdescription]
  · rfl

theorem body? (hint : String) (hnm : Option.Rel (s.Seen t (R .requestBody)) n m) :
    s.body? hint n = t.body? hint m := by
  unfold Scope.body?
  refine agree_lift_bind (h.fieldsOf hnm) fun fields fields' hfields => ?_
  have hcontent : Option.Rel (R (.table .media)) _ _ := hfields "content" (by decide)
  have hrequired : Option.Rel (R .plain) _ _ := hfields "required" (by decide)
  have hdescription : Option.Rel (R .plain) _ _ := hfields "description" (by decide)
  refine agree_lift_bind (h.mediaOf (h.seen hcontent)) fun media media' hmedia => ?_
  rw [hmedia.keys]
  split
  · rfl
  · rename_i mediaType _
    refine agree_lift_bind (h.schemaOf (hmedia.get? mediaType)) fun own own' hschema => ?_
    dsimp only
    rw [h.typeOf hschema, h.isTrue hrequired, h.textOf hdescription]

theorem responseSchema? {responses responses' : Fields Node} {code : String}
    (hcode : Option.Rel (s.Seen t (R .response)) (Fields.get? responses code)
      (Fields.get? responses' code)) :
    Agree (Option.Rel (R .schema)) (s.responseSchema? responses code)
      (t.responseSchema? responses' code) := by
  unfold Scope.responseSchema?
  refine (h.fieldsOf hcode).bind fun fields fields' hfields => ?_
  have hcontent : Option.Rel (R (.table .media)) _ _ := hfields "content" (by decide)
  refine (h.mediaOf (h.seen hcontent)).bind fun media media' hmedia => ?_
  rw [hmedia.keys]
  cases pickMediaType (Fields.keys media') with
  | none => exact .ok .none
  | some mediaType =>
      refine (h.schemaOf (hmedia.get? mediaType)).bind fun own own' hschema => ?_
      dsimp only
      rw [h.isNothing hschema]
      split
      · exact .ok .none
      · exact .ok hschema

/-! ### The rest of the document -/

theorem shownOrEmpty (hnm : Option.Rel (R .plain) n m) : s.shownOrEmpty n = t.shownOrEmpty m := by
  cases hnm with
  | none => rfl
  | some hab => exact h.shown hab

/-- What is below a plain value is plain. -/
theorem plainFieldsOf (hnm : Option.Rel (R .plain) n m) :
    Agree (Fields.Related fun _ => R .plain) (s.fieldsOf n) (t.fieldsOf m) :=
  h.tableOf (fun _ => ⟨rfl, by decide⟩) (h.seen hnm)

theorem server? (hab : R .plain a b) : s.server? a = t.server? b := by
  unfold Scope.server?
  refine (h.plainFieldsOf (.some hab)).bind_eq fun fields fields' hfields => ?_
  rw [h.textOf (hfields.get? "url"), h.textOf (hfields.get? "description")]

theorem servers (hnm : Option.Rel (R .plain) n m) : s.servers n = t.servers m := by
  unfold Scope.servers
  refine (h.itemsOf (h.seen hnm)).bind_eq fun items items' hitems => ?_
  rw [mapM_eq_of_forall₂ hitems fun _ _ hab => h.server? hab]

theorem securitySchemes (hnm : Option.Rel (R .plain) n m) :
    s.securitySchemes n = t.securitySchemes m := by
  unfold Scope.securitySchemes
  refine (h.plainFieldsOf hnm).bind_eq fun schemes schemes' hschemes => ?_
  refine mapM_eq_of_forall₂ hschemes fun e e' he => ?_
  unfold Scope.securityScheme
  refine (h.plainFieldsOf (.some he.2)).bind_eq fun fields fields' hfields => ?_
  rw [he.1, h.shownOrEmpty (hfields.get? "type"), h.textOf (hfields.get? "in"),
    h.textOf (hfields.get? "name"), h.textOf (hfields.get? "scheme")]

end Alike

/-! ### Operations -/

/-- Two nodes of a kind behind which two scopes see alike. -/
def SeenAlike (s t : Scope) (k : Kind) (n m : Node) : Prop := ∃ R, s.Alike t R ∧ s.Seen t (R k) n m

theorem parameter?_eq (hint : String) (hab : s.SeenAlike t .parameter a b) :
    s.parameter? hint a = t.parameter? hint b := by
  obtain ⟨R, h, hseen⟩ := hab
  exact h.parameter? hint hseen

/-- Each response may be seen alike in a way of its own. -/
theorem response?_eq (hint : String)
    (hnm : Agree (Fields.Related fun _ => s.SeenAlike t .response) (s.fieldsOf n) (t.fieldsOf m)) :
    s.response? hint n = t.response? hint m := by
  unfold Scope.response?
  refine agree_lift_bind hnm fun responses responses' hresponses => ?_
  have hfound : Agree (Option.Rel fun n m => ∃ R, s.Alike t R ∧ R .schema n m)
      ((successCodes responses).findSomeM? (s.responseSchema? responses))
      ((successCodes responses').findSomeM? (t.responseSchema? responses')) := by
    unfold successCodes
    rw [hresponses.keys]
    refine Agree.findSomeM? _ fun code _ => ?_
    have hcode := hresponses.get? code
    generalize hresponse : Fields.get? responses code = response at hcode
    generalize hresponse' : Fields.get? responses' code = response' at hcode
    cases hcode with
    | none =>
        unfold Scope.responseSchema?
        rw [hresponse, hresponse']
        exact .ok .none
    | some hab =>
        obtain ⟨R, h, hseen⟩ := hab
        have hcode : Option.Rel (s.Seen t (R .response)) (Fields.get? responses code)
            (Fields.get? responses' code) := by
          rw [hresponse, hresponse']
          exact .some hseen
        exact (h.responseSchema? hcode).mono fun _ _ hschema =>
          optionRel_mono hschema fun _ _ hnm => ⟨R, h, hnm⟩
  refine agree_lift_bind hfound fun schema schema' hschema => ?_
  cases hschema with
  | none => rfl
  | some hab =>
      obtain ⟨R, h, hnm⟩ := hab
      dsimp only
      rw [h.typeOf (.some hnm)]

/-- **Two operations that are seen alike.** -/
structure SameOperation (s t : Scope) (R : Kind → Node → Node → Prop)
    (fields fields' : Fields Node) : Prop where
  plain : ∀ key ∈ ["operationId", "summary", "description", "tags", "deprecated"],
    Option.Rel (R .plain) (Fields.get? fields key) (Fields.get? fields' key)
  parameters : Agree (List.Forall₂ (s.SeenAlike t .parameter))
    (s.itemsOf (Fields.get? fields "parameters")) (t.itemsOf (Fields.get? fields' "parameters"))
  body : ∃ R, s.Alike t R ∧ Option.Rel (s.Seen t (R .requestBody))
    (Fields.get? fields "requestBody") (Fields.get? fields' "requestBody")
  responses : Agree (Fields.Related fun _ => s.SeenAlike t .response)
    (s.fieldsOf (Fields.get? fields "responses")) (t.fieldsOf (Fields.get? fields' "responses"))

namespace Alike

variable (h : s.Alike t R)

include h

theorem operation (path method : String) (hfields : s.SameOperation t R fields fields')
    {ofPath ofPath' : List Node} (hofPath : List.Forall₂ (s.SeenAlike t .parameter) ofPath ofPath') :
    s.operation path method fields ofPath = t.operation path method fields' ofPath' := by
  unfold Scope.operation
  rw [h.textOf (hfields.plain "operationId" (by simp)), h.textOf (hfields.plain "summary" (by simp)),
    h.textOf (hfields.plain "description" (by simp)), h.textsOf (hfields.plain "tags" (by simp)),
    h.isTrue (hfields.plain "deprecated" (by simp))]
  refine lift_bind_congr fun identifier _ => bind_congr fun name => ?_
  refine lift_bind_congr fun summary _ => lift_bind_congr fun description _ => ?_
  refine lift_bind_congr fun tags _ => ?_
  refine agree_lift_bind hfields.parameters fun own own' hown => ?_
  have hparameters : ∀ hint,
      s.parameters hint (ofPath ++ own) = t.parameters hint (ofPath' ++ own') := by
    intro hint
    unfold Scope.parameters
    rw [mapM_eq_of_forall₂ (List.rel_append hofPath hown) fun _ _ hab => parameter?_eq hint hab]
  obtain ⟨R', h', hbody⟩ := hfields.body
  rw [hparameters, h'.body? _ hbody, response?_eq _ hfields.responses]

theorem seenAlike (hab : R k a b) : s.SeenAlike t k a b := ⟨R, h, h.follow hab⟩

/-- The parameters in a list of them. -/
theorem parametersOf (hnm : Option.Rel (R (.list .parameter)) n m) :
    Agree (List.Forall₂ (s.SeenAlike t .parameter)) (s.itemsOf n) (t.itemsOf m) :=
  (h.itemsOf (h.seen hnm)).mono fun _ _ hall => hall.imp fun _ _ => h.seenAlike

/-- **Related operations are seen alike.** -/
theorem sameOperation (hfields : SameFields R .operation fields fields') :
    s.SameOperation t R fields fields' where
  plain key hkey := by
    have hplain : ∀ key ∈ ["operationId", "summary", "description", "tags", "deprecated"],
        Kind.operation.Has key .plain := by decide
    exact hfields key (hplain key hkey)
  parameters := h.parametersOf (hfields "parameters" (by decide))
  body := ⟨R, h, h.seen (hfields "requestBody" (by decide))⟩
  responses := by
    have hresponses : Option.Rel (R (.table .response)) _ _ := hfields "responses" (by decide)
    exact (h.tableOf (fun _ => ⟨rfl, by decide⟩) (h.seen hresponses)).mono fun _ _ hall =>
      hall.mono fun _ _ _ => h.seenAlike

end Alike

/-- **Two paths that are seen alike**, each with the operations for the methods. -/
structure SamePath (s t : Scope) (fields fields' : Fields Node) : Prop where
  parameters : Agree (List.Forall₂ (s.SeenAlike t .parameter))
    (s.itemsOf (Fields.get? fields "parameters")) (t.itemsOf (Fields.get? fields' "parameters"))
  isMapping : ∀ method ∈ Canonical.methods, s.isMapping (Fields.get? fields method)
    = t.isMapping (Fields.get? fields' method)
  operations : ∀ method ∈ Canonical.methods, ∃ R, s.Alike t R
    ∧ Agree (s.SameOperation t R) (s.fieldsOf (Fields.get? fields method))
      (t.fieldsOf (Fields.get? fields' method))

/-- **Related paths are seen alike.** -/
theorem Alike.samePath (h : s.Alike t R) (hfields : SameFields R .pathItem fields fields') :
    s.SamePath t fields fields' := by
  have hmethods : ∀ method ∈ Canonical.methods, Kind.pathItem.Has method .operation := by decide
  exact {
    parameters := h.parametersOf (hfields "parameters" (by decide))
    isMapping := fun method hmethod => h.isMapping (hfields method (hmethods method hmethod))
    operations := fun method hmethod => ⟨R, h,
      (h.fieldsOf (h.seen (hfields method (hmethods method hmethod)))).mono
        fun _ _ => h.sameOperation⟩ }

/-- The operations of paths that are seen alike are the same. -/
theorem operations_eq {paths paths' : Fields Node}
    (hpaths : Fields.Related (fun _ n m =>
      Agree (s.SamePath t) (s.fieldsOf (some n)) (t.fieldsOf (some m))) paths paths') :
    s.operations paths = t.operations paths' := by
  unfold Scope.operations
  rw [mapM_eq_of_forall₂ hpaths]
  rintro ⟨path, item⟩ ⟨path', item'⟩ ⟨rfl, hitem⟩
  dsimp only at hitem ⊢
  unfold Scope.pathOperations
  refine agree_lift_bind hitem fun fields fields' hfields => ?_
  refine agree_lift_bind hfields.parameters fun ofPath ofPath' hofPath => ?_
  have hmethods : Canonical.methods.mapM (s.methodOperation? path fields ofPath)
      = Canonical.methods.mapM (t.methodOperation? path fields' ofPath') := by
    refine mapM_congr fun method hmethod => ?_
    obtain ⟨R, h, hoperation⟩ := hfields.operations method hmethod
    unfold Scope.methodOperation?
    dsimp only
    rw [hfields.isMapping method hmethod]
    refine lift_bind_congr fun isMapping _ => ?_
    split
    · refine agree_lift_bind hoperation fun own own' hown => ?_
      rw [h.operation path method hown hofPath]
    · rfl
  rw [hmethods]

/-- **Two documents that are seen alike**, part by part. -/
structure SameParts (s t : Scope) (R : Kind → Node → Node → Prop) (parts parts' : Parts) :
    Prop where
  schemas : Fields.Related (fun _ => R .schema) parts.schemas parts'.schemas
  info : Fields.Related (fun _ => R .plain) parts.info parts'.info
  servers : Option.Rel (R .plain) (Fields.get? parts.document "servers")
    (Fields.get? parts'.document "servers")
  securitySchemes : Option.Rel (R .plain) (Fields.get? parts.components "securitySchemes")
    (Fields.get? parts'.components "securitySchemes")
  paths : Agree (Fields.Related fun _ n m =>
      Agree (s.SamePath t) (s.fieldsOf (some n)) (t.fieldsOf (some m)))
    (s.fieldsOf (Fields.get? parts.document "paths")) (t.fieldsOf (Fields.get? parts'.document "paths"))

/-- **Documents that are seen alike describe the same interface.** -/
theorem Alike.interface (h : s.Alike t R) {parts parts' : Parts}
    (hparts : s.SameParts t R parts parts') :
    s.interface parts = t.interface parts' := by
  unfold Scope.interface
  rw [h.components hparts.schemas]
  refine bind_congr fun _ => agree_lift_bind hparts.paths fun paths paths' hpaths => ?_
  rw [operations_eq hpaths, h.textOf (hparts.info.get? "title"), h.shownOrEmpty (hparts.info.get? "version"),
    h.textOf (hparts.info.get? "description"), h.servers hparts.servers,
    h.securitySchemes hparts.securitySchemes]

end Scope

end ApiClientGen.Extraction
