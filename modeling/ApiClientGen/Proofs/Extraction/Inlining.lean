/-
References of operations, written out.

An operation may refer to a parameter, a body or a response among the components, or have the
same thing itself.  The two describe the same interface: what is behind the reference is a twin
of the copy.  The way down to the operations is the same in both documents, through values that
differ only further inside, and beside that way the documents are the same.
-/
import ApiClientGen.Proofs.Canonical.Operations
import ApiClientGen.Proofs.Extraction.Twins
import ApiClientGen.Proofs.Extraction.Widening
import ApiClientGen.Proofs.Reference.Linking

namespace ApiClientGen.Extraction

open ApiClientGen.Canonical ApiClientGen.Document ApiClientGen.Reference
  ApiClientGen.Reference.Linked

/-! ### Documents that differ in their operations -/

/-- A reference whose pointer leads through the components to an entry of a section. -/
def LeadsToEntry (part name ref : String) : Prop :=
  ∃ pointer, ref = "#" ++ pointer ∧ IsWithout ['\t', '\r', '\n'] pointer
    ∧ pointerParts pointer = ["components", part, name]

/--
**What may stand in the place of a value**: the value itself, or else the entry of the components
that it refers to.  The entry is no reference, and those inside of it lead to schemas.
-/
inductive Inlines (components : Fields Value) : Value → Value → Prop where
  | same (v : Value) : Inlines components v v
  | entry {fields entries target : Fields Value} {part name ref : String}
      (ref_text : Fields.textAt? fields refKey = some ref) (lead : LeadsToEntry part name ref)
      (beside : part ≠ "schemas")
      (entries_part : Fields.get? components part = some (.mapping entries))
      (entries_plain : Fields.textAt? entries refKey = none)
      (target_name : Fields.get? entries name = some (.mapping target))
      (target_plain : Fields.textAt? target refKey = none)
      (target_refs : RefsIn (LeadsAlong ["components", "schemas"]) target) :
      Inlines components (.mapping fields) (.mapping target)

/-- **A document, and one with some references of its operations written out.** -/
structure Inlined (t u : Fields Value) : Prop where
  related : Fields.Related (DocumentField (Inlines (Fields.fieldsAt t "components"))) t u
  root : Fields.textAt? t refKey = none
  components : Fields.textAt? (Fields.fieldsAt t "components") refKey = none
  schemas : ∀ v, Fields.get? (Fields.fieldsAt t "components") "schemas" = some v →
    Refs (LeadsAlong ["components", "schemas"]) v
  left : RefsIn (LeadsAlong ["components"]) t
  right : RefsIn (LeadsAlong ["components"]) u

/-! ### Both documents share their components -/

section

variable {t u : Fields Value} (h : Inlined t u)

include h

theorem Inlined.get?_eq {key : String} (hkey : key ≠ "paths") :
    Fields.get? t key = Fields.get? u key :=
  h.related.get?_eq fun _ _ => DocumentField.eq hkey

theorem Inlined.share : ShareComponents ⟨.mapping t⟩ ⟨.mapping u⟩ where
  left := h.root
  right := by
    have hroot := h.root
    rw [Fields.textAt?, h.get?_eq (by decide)] at hroot
    exact hroot
  components := by
    have heq : Fields.get? t "components" = Fields.get? u "components" := h.get?_eq (by decide)
    show (Fields.get? t "components").map _ = (Fields.get? u "components").map _
    rw [heq]
    rfl
  refs c hc := refs_part? (v := .mapping t) h.left hc

end

/-- An entry of the components is there only if the components are. -/
theorem part?_components {t : Fields Value} {key : String} {v : Value}
    (hv : Fields.get? (Fields.fieldsAt t "components") key = some v) :
    (Node.root (.mapping t)).part? "components"
      = some (componentsNode (Fields.fieldsAt t "components")) := by
  show (Fields.get? t "components").map _ = _
  unfold Fields.fieldsAt at hv ⊢
  cases hget : Fields.get? t "components" with
  | none =>
      rw [hget] at hv
      cases hv
  | some components =>
      rw [hget] at hv
      cases components with
      | mapping fields => rfl
      | list vs => cases hv
      | scalar s => cases hv

/-! ### Nodes at the same place -/

/-- The node of the paths, and what is below it. -/
def BelowPaths (place : Place) : Prop := [.field "paths"] <:+ place

/--
**Nodes at the same place of both documents**: they have the same value, or are on the way to
operations and have related ones.
-/
structure Beside (r : Value → Value → Prop) (n m : Node) : Prop where
  place : n.place = m.place
  left : Refs (LeadsAlong ["components"]) n.value
  right : Refs (LeadsAlong ["components"]) m.value
  value : n.value = m.value ∨ BelowPaths n.place ∧ r n.value m.value

namespace Beside

variable {r : Value → Value → Prop} {n m : Node}

theorem of_sameTwins (h : SameTwins n m) : Beside r n m :=
  ⟨h.place, h.refs, h.value ▸ h.refs, Or.inl h.value⟩

theorem sameTwins (h : Beside r n m) (hvalue : n.value = m.value) : SameTwins n m :=
  ⟨hvalue, h.left, h.place⟩

theorem sameTwins_of_eq (h : Beside Eq n m) : SameTwins n m :=
  h.sameTwins (h.value.elim id And.right)

theorem fields {r : String → Value → Value → Prop} {t u : Fields Value} (place : Place)
    (hrel : Fields.Related r t u)
    (hbelow : ∀ key v w, r key v w → v = w ∨ BelowPaths (.field key :: place))
    (hleft : RefsIn (LeadsAlong ["components"]) t) (hright : RefsIn (LeadsAlong ["components"]) u) :
    Fields.Related (fun key => Beside (r key)) (Node.fields ⟨place, .mapping t⟩)
      (Node.fields ⟨place, .mapping u⟩) := by
  induction hrel with
  | nil => exact .nil
  | @cons e f t u he _ ih =>
      obtain ⟨key, v⟩ := e
      obtain ⟨key', w⟩ := f
      obtain ⟨rfl, hvw⟩ := he
      obtain ⟨hv, hleft⟩ := refsIn_cons.mp hleft
      obtain ⟨hw, hright⟩ := refsIn_cons.mp hright
      exact .cons ⟨rfl, hv.refs, hw.refs, (hbelow key v w hvw).imp_right fun h => ⟨h, hvw⟩⟩
        (ih hleft hright)

theorem items {vs ws : List Value} {place : Place} (hrel : List.Forall₂ r vs ws)
    (hbelow : BelowPaths place) (hleft : ∀ v ∈ vs, Refs (LeadsAlong ["components"]) v)
    (hright : ∀ w ∈ ws, Refs (LeadsAlong ["components"]) w) :
    List.Forall₂ (Beside r) (Node.items ⟨place, .list vs⟩) (Node.items ⟨place, .list ws⟩) := by
  rw [List.forall₂_iff_get] at hrel ⊢
  obtain ⟨hlength, hall⟩ := hrel
  show _ ∧ _
  unfold Node.items
  simp only [Value.asItems, List.length_mapIdx, List.get_eq_getElem, List.getElem_mapIdx] at hall ⊢
  exact ⟨hlength, fun i hi hi' => ⟨rfl, hleft _ (List.getElem_mem _), hright _ (List.getElem_mem _),
    Or.inr ⟨hbelow.trans (List.suffix_cons _ _), hall i hi hi'⟩⟩⟩

end Beside

/-- The scope of a document within bounds, with names for models. -/
def scopeOf (t : Fields Value) (b : Bounds) (models : Fields String) : Scope :=
  { Scope.ofLinked ⟨.mapping t⟩ b with models }

/-- A node that is no reference is behind itself. -/
theorem follow_scopeOf {t : Fields Value} {b : Bounds} {models : Fields String} {n : Node}
    (hn : n.ref? = none) : (scopeOf t b models).follow n = .ok n := by
  show Except.mapError _ (Linked.followWithin ⟨.mapping t⟩ b.chain n) = _
  rw [followWithin_of_none hn]
  rfl

section

variable {s : Scope} {n target : Node} (h : s.follow n = .ok target)

include h

theorem fieldsOf_of_follow : s.fieldsOf (some n) = .ok target.fields := by
  show (s.follow n >>= _) >>= _ = _
  rw [h]
  rfl

theorem itemsOf_of_follow : s.itemsOf (some n) = .ok target.items := by
  show (s.follow n >>= _) >>= _ = _
  rw [h]
  rfl

theorem isMapping_of_follow : s.isMapping (some n) = .ok target.value.isMapping := by
  show (s.follow n >>= _) >>= _ = _
  rw [h]
  rfl

end

section

variable {t u : Fields Value} (h : Inlined t u) (b : Bounds) (models : Fields String)

include h

theorem Inlined.alike : (scopeOf t b models).Alike (scopeOf u b models) fun _ => SameTwins :=
  alike_ofLinked h.share.shared b models

theorem Inlined.seen_twins {n m : Node} (hnm : SameTwins n m) :
    (scopeOf t b models).Seen (scopeOf u b models) SameTwins n m :=
  (h.alike b models).follow (k := .plain) hnm

theorem Inlined.seenOption_twins {n m : Option Node} (hnm : Option.Rel SameTwins n m) :
    Option.Rel ((scopeOf t b models).Seen (scopeOf u b models) SameTwins) n m :=
  optionRel_mono hnm fun _ _ => h.seen_twins b models

theorem Inlined.tableOf_twins {n m : Option Node}
    (hnm : Option.Rel ((scopeOf t b models).Seen (scopeOf u b models) SameTwins) n m) :
    Agree (Fields.Related fun _ => SameTwins) ((scopeOf t b models).fieldsOf n)
      ((scopeOf u b models).fieldsOf m) :=
  (h.alike b models).tableOf (k := .plain) (c := .plain) (fun _ => ⟨rfl, by decide⟩) hnm

theorem Inlined.itemsOf_twins {n m : Option Node}
    (hnm : Option.Rel ((scopeOf t b models).Seen (scopeOf u b models) SameTwins) n m) :
    Agree (List.Forall₂ SameTwins) ((scopeOf t b models).itemsOf n)
      ((scopeOf u b models).itemsOf m) :=
  (h.alike b models).itemsOf (k := .plain) hnm

/-- References with the same text at the same place lead to the same node. -/
theorem Inlined.follow {n m : Node} {ref : String} (hplace : n.place = m.place)
    (hn : n.ref? = some ref) (hm : m.ref? = some ref) (href : LeadsAlong ["components"] ref) :
    Agree SameTwins ((scopeOf t b models).follow n) ((scopeOf u b models).follow m) :=
  (h.share.shared.followWithin_ref b.chain hplace hn hm href).mapError Failure.reference

theorem Inlined.seen_same {r : Value → Value → Prop} {n m : Node} (hnm : Beside r n m)
    (hvalue : n.value = m.value) : (scopeOf t b models).Seen (scopeOf u b models) SameTwins n m :=
  h.seen_twins b models (hnm.sameTwins hvalue)

/--
Mappings at the same place either have the same node behind them, or they are behind themselves
and have related fields.
-/
theorem Inlined.mapping_cases {r : String → Value → Value → Prop}
    (htext : ∀ v w, r refKey v w → v.asText? = w.asText?) {n m : Node}
    (hnm : Beside (RelatedMappings r) n m) :
    (scopeOf t b models).Seen (scopeOf u b models) SameTwins n m
      ∨ (Fields.Related (fun key => Beside (r key)) n.fields m.fields
        ∧ n.value.isMapping = true ∧ m.value.isMapping = true
        ∧ (scopeOf t b models).follow n = .ok n ∧ (scopeOf u b models).follow m = .ok m) := by
  rcases hnm.value with hvalue | ⟨hbelow, hvalue⟩
  · exact Or.inl (h.seen_same b models hnm hvalue)
  · obtain ⟨place, v⟩ := n
    obtain ⟨place', w⟩ := m
    obtain rfl : place = place' := hnm.place
    dsimp only at hvalue
    cases hvalue with
    | same v => exact Or.inl (h.seen_same b models hnm rfl)
    | @fields fs gs hrel =>
        have href : Node.ref? ⟨place, .mapping fs⟩ = Node.ref? ⟨place, .mapping gs⟩ := by
          show (Fields.get? fs refKey).bind _ = (Fields.get? gs refKey).bind _
          have hget := hrel.get? refKey
          generalize Fields.get? fs refKey = a at hget
          generalize Fields.get? gs refKey = b at hget
          cases hget with
          | none => rfl
          | some hvw => exact htext _ _ hvw
        cases hn : Node.ref? ⟨place, .mapping fs⟩ with
        | some ref => exact Or.inl (h.follow b models rfl hn (href ▸ hn) (refs_ref? hnm.left hn))
        | none =>
            have hfields := Beside.fields place hrel
              (fun _ _ _ _ => Or.inr (hbelow.trans (List.suffix_cons _ _))) hnm.left hnm.right
            exact Or.inr ⟨hfields, rfl, rfl, follow_scopeOf hn, follow_scopeOf (href ▸ hn)⟩

/-- The fields of mappings at the same place, on the way to operations. -/
theorem Inlined.fieldsOf {r : String → Value → Value → Prop}
    (htext : ∀ v w, r refKey v w → v.asText? = w.asText?) {n m : Option Node}
    (hnm : Option.Rel (Beside (RelatedMappings r)) n m) :
    Agree (Fields.Related fun key => Beside (r key)) ((scopeOf t b models).fieldsOf n)
      ((scopeOf u b models).fieldsOf m) := by
  cases hnm with
  | none => exact .ok .nil
  | some hnm =>
      rcases h.mapping_cases b models htext hnm with hseen | ⟨hfields, -, -, hn, hm⟩
      · exact (h.tableOf_twins b models (.some hseen)).mono fun _ _ hfields =>
          hfields.mono fun _ _ _ => Beside.of_sameTwins
      · rw [fieldsOf_of_follow hn, fieldsOf_of_follow hm]
        exact .ok hfields

/-- Mappings at the same place are mappings in both documents. -/
theorem Inlined.isMapping {r : String → Value → Value → Prop}
    (htext : ∀ v w, r refKey v w → v.asText? = w.asText?) {n m : Option Node}
    (hnm : Option.Rel (Beside (RelatedMappings r)) n m) :
    (scopeOf t b models).isMapping n = (scopeOf u b models).isMapping m := by
  cases hnm with
  | none => rfl
  | @some n m hnm =>
      rcases h.mapping_cases b models htext hnm with hseen | ⟨-, hleft, hright, hn, hm⟩
      · refine Agree.bind_eq (Scope.agree_behind (.some hseen)) fun found found' hfound => ?_
        cases hfound with
        | none => rfl
        | some hfound => exact congrArg (fun v => Except.ok (Value.isMapping v)) hfound.value
      · rw [isMapping_of_follow hn, isMapping_of_follow hm, hleft, hright]

/-- The items of lists at the same place, on the way to what differs. -/
theorem Inlined.itemsOf {r : Value → Value → Prop} {n m : Option Node}
    (hnm : Option.Rel (Beside (RelatedLists r)) n m) :
    Agree (List.Forall₂ (Beside r)) ((scopeOf t b models).itemsOf n)
      ((scopeOf u b models).itemsOf m) := by
  have hsame : ∀ {n m : Option Node},
      Option.Rel ((scopeOf t b models).Seen (scopeOf u b models) SameTwins) n m →
        Agree (List.Forall₂ (Beside r)) ((scopeOf t b models).itemsOf n)
          ((scopeOf u b models).itemsOf m) :=
    fun hseen => (h.itemsOf_twins b models hseen).mono fun _ _ hitems =>
      hitems.imp fun _ _ => Beside.of_sameTwins
  cases hnm with
  | none => exact .ok .nil
  | @some n m hnm =>
      rcases hnm.value with hvalue | ⟨hbelow, hvalue⟩
      · exact hsame (.some (h.seen_same b models hnm hvalue))
      · obtain ⟨place, v⟩ := n
        obtain ⟨place', w⟩ := m
        obtain rfl : place = place' := hnm.place
        dsimp only at hvalue
        cases hvalue with
        | same v => exact hsame (.some (h.seen_same b models hnm rfl))
        | @items vs ws hrel =>
            have hself : ∀ {fields : Fields Value} {items : List Value},
                (scopeOf fields b models).itemsOf (some ⟨place, .list items⟩)
                  = .ok (Node.items ⟨place, .list items⟩) :=
              itemsOf_of_follow (follow_scopeOf rfl)
            rw [hself, hself]
            exact .ok (Beside.items hrel hbelow (refs_list.mp hnm.left) (refs_list.mp hnm.right))

end

/-! ### What is written out -/

theorem besideSchemas_of_belowPaths {place : Place} (hplace : BelowPaths place) :
    BesideSchemas place := by
  rintro steps hschemas
  obtain ⟨before, rfl⟩ := hplace
  obtain ⟨rest, hrest⟩ := hschemas
  have hlast := congrArg List.getLast? hrest
  simp [schemasPlace] at hlast

theorem besideSchemas_entry {part : String} (name : String) (hpart : part ≠ "schemas") :
    BesideSchemas [.field name, .field part, .field "components"] := by
  rintro steps ⟨rest, hrest⟩
  have hreverse := congrArg List.reverse hrest
  simp [schemasPlace] at hreverse
  exact hpart hreverse.1.symm

theorem asText?_of_relatedMappings {r : String → Value → Value → Prop} {v w : Value}
    (h : RelatedMappings r v w) : v.asText? = w.asText? := by
  cases h <;> rfl

theorem asText?_of_inlines {components : Fields Value} {v w : Value}
    (h : Inlines components v w) : v.asText? = w.asText? := by
  cases h <;> rfl

theorem asText?_of_eq {v w : Value} (h : v = w) : v.asText? = w.asText? := by rw [h]

/-- What stands under a key of related fields, as the relation is there. -/
theorem get?_beside {r : Value → Value → Prop} {r' : String → Value → Value → Prop}
    {fields fields' : Fields Node} (h : Fields.Related (fun key => Beside (r' key)) fields fields')
    (key : String) (hkey : r' key = r) :
    Option.Rel (Beside r) (Fields.get? fields key) (Fields.get? fields' key) :=
  hkey ▸ h.get? key

section

variable {t u : Fields Value} (h : Inlined t u) (b : Bounds) (models : Fields String)

theorem stepTo_of_part? {n m : Node} {ref pointer part : String} (hm : n.part? part = some m) :
    stepTo ref pointer part n = .ok m := by
  rw [stepTo, hm]

/-- The way through the components leads to an entry, if nothing on it is a reference. -/
theorem follow_entry (hroot : Fields.textAt? t refKey = none)
    (hparts : Fields.textAt? (Fields.fieldsAt t "components") refKey = none)
    (hchain : 0 < b.chain) {n : Node} {part name ref : String}
    {entries target : Fields Value} (href : n.ref? = some ref) (hlead : LeadsToEntry part name ref)
    (hentries : Fields.get? (Fields.fieldsAt t "components") part = some (.mapping entries))
    (hplain : Fields.textAt? entries refKey = none)
    (htarget : Fields.get? entries name = some (.mapping target))
    (hown : Fields.textAt? target refKey = none)
    (hplace : n.place ≠ [.field name, .field part, .field "components"]) :
    (scopeOf t b models).follow n
      = .ok ⟨[.field name, .field part, .field "components"], .mapping target⟩ := by
  obtain ⟨length, hlength⟩ : ∃ length, b.chain = length + 1 := ⟨b.chain - 1, by omega⟩
  obtain ⟨pointer, rfl, hwithout, hpointer⟩ := hlead
  have hself : ∀ {k : Node}, k.ref? = none →
      Linked.followWithin ⟨.mapping t⟩ length k = .ok k := fun hk => followWithin_of_none hk length
  have hcomponents : (componentsNode (Fields.fieldsAt t "components")).part? part
      = some ⟨[.field part, .field "components"], .mapping entries⟩ := by
    show (Fields.get? (Fields.fieldsAt t "components") part).map _ = _
    rw [hentries]
    rfl
  have hname : (⟨[.field part, .field "components"], .mapping entries⟩ : Node).part? name
      = some ⟨[.field name, .field part, .field "components"], .mapping target⟩ := by
    show (Fields.get? entries name).map _ = _
    rw [htarget]
    rfl
  have hwalk : walk (Linked.followWithin ⟨.mapping t⟩ length) ("#" ++ pointer) pointer n.place
        (.root (.mapping t)) ["components", part, name]
      = .ok ⟨[.field name, .field part, .field "components"], .mapping target⟩ := by
    -- Nothing on the way is a reference, so every step is made from where the last one ended.
    have hroot : (Node.root (.mapping t)).ref? = none := hroot
    have hparent : (componentsNode (Fields.fieldsAt t "components")).ref? = none := hparts
    have hsection : (⟨[.field part, .field "components"], .mapping entries⟩ : Node).ref? = none :=
      hplain
    rw [walk_cons_of_self (hself hroot), stepTo_of_part? (part?_components hentries)]
    show walk _ _ _ _ (componentsNode (Fields.fieldsAt t "components")) [part, name] = _
    rw [walk_cons_of_self (hself hparent), stepTo_of_part? hcomponents]
    show walk _ _ _ _ ⟨[.field part, .field "components"], .mapping entries⟩ [name] = _
    rw [walk_cons_of_self (hself hsection), stepTo_of_part? hname]
    rfl
  have hown : (⟨[.field name, .field part, .field "components"], .mapping target⟩ : Node).ref?
      = none := hown
  show Except.mapError _ (Linked.followWithin ⟨.mapping t⟩ b.chain n) = _
  rw [hlength, followWithin_of_some href, target_fragment hwithout]
  show Except.mapError _ (walk _ _ pointer _ _ (pointerParts pointer) >>= _) = _
  rw [hpointer, hwalk]
  show Except.mapError _ (if _ = n.place then _ else _) = _
  rw [if_neg hplace.symm, hself hown]
  rfl

include h

/-- A reference that is written out is seen like what is written out. -/
theorem Inlined.seenAlike (hchain : 0 < b.chain) (k : Kind) {n m : Node}
    (hnm : Beside (Inlines (Fields.fieldsAt t "components")) n m) :
    (scopeOf t b models).SeenAlike (scopeOf u b models) k n m := by
  rcases hnm.value with hvalue | ⟨hbelow, hvalue⟩
  · exact ⟨fun _ => SameTwins, h.alike b models, h.seen_same b models hnm hvalue⟩
  · obtain ⟨place, v⟩ := n
    obtain ⟨place', w⟩ := m
    obtain rfl : place = place' := hnm.place
    dsimp only at hvalue hbelow
    cases hvalue with
    | same v => exact ⟨fun _ => SameTwins, h.alike b models, h.seen_same b models hnm rfl⟩
    | @entry fields entries target part name ref htext hlead hbeside hentries hplain hname hown hrefs =>
        -- From here on places differ: below the component in the one document, and below the
        -- operation in the other.  Only the places of schemas stay the same.
        have hsource := besideSchemas_entry name hbeside
        have hcopy := besideSchemas_of_belowPaths hbelow
        have hshared := h.share.shared_copied (part?_components hentries) h.components h.schemas
          hsource hcopy
        refine ⟨_, alike_ofLinked hshared b models, ?_⟩
        have hplace : place ≠ [.field name, .field part, .field "components"] := by
          rintro rfl
          obtain ⟨before, hbefore⟩ := hbelow
          have hlast := congrArg List.getLast? hbefore
          simp at hlast
        have hn := follow_entry b models h.root h.components hchain (n := ⟨place, .mapping fields⟩)
          htext hlead hentries hplain hname hown hplace
        have hm : (scopeOf u b models).follow ⟨place, .mapping target⟩
            = .ok ⟨place, .mapping target⟩ :=
          follow_scopeOf hown
        show Agree _ ((scopeOf t b models).follow _) ((scopeOf u b models).follow _)
        rw [hn, hm]
        exact .ok ⟨rfl, hrefs, Or.inl ⟨[], rfl, rfl⟩⟩

/-! ### From operations up to the document -/

/-- **Operations that differ in references that are written out are seen alike.** -/
theorem Inlined.sameOperation (hchain : 0 < b.chain) {fields fields' : Fields Node}
    (hfields : Fields.Related
      (fun key => Beside (OperationField (Inlines (Fields.fieldsAt t "components")) key))
      fields fields') :
    (scopeOf t b models).SameOperation (scopeOf u b models) (fun _ => SameTwins) fields fields' where
  plain key hkey := by
    have hne : key ≠ "parameters" ∧ key ≠ "requestBody" ∧ key ≠ "responses" := by
      revert key
      decide
    have heq : OperationField (Inlines (Fields.fieldsAt t "components")) key = Eq := by
      rw [OperationField, if_neg hne.1, if_neg hne.2.1, if_neg hne.2.2]
    exact optionRel_mono (get?_beside hfields key heq) fun _ _ => Beside.sameTwins_of_eq
  parameters := (h.itemsOf b models (get?_beside hfields "parameters" rfl)).mono fun _ _ hitems =>
    hitems.imp fun _ _ => h.seenAlike b models hchain _
  body := by
    have hbody := get?_beside hfields "requestBody" rfl
    generalize Fields.get? fields "requestBody" = n at hbody
    generalize Fields.get? fields' "requestBody" = m at hbody
    cases hbody with
    | none => exact ⟨fun _ => SameTwins, h.alike b models, .none⟩
    | some hnm =>
        obtain ⟨R, halike, hseen⟩ := h.seenAlike b models hchain .requestBody hnm
        exact ⟨R, halike, .some hseen⟩
  responses := by
    have hresponses := get?_beside hfields "responses" rfl
    exact (h.fieldsOf b models (fun _ _ => asText?_of_inlines) hresponses).mono fun _ _ hfields =>
      hfields.mono fun _ _ _ => h.seenAlike b models hchain _

/-- **Paths with such operations are seen alike.** -/
theorem Inlined.samePath (hchain : 0 < b.chain) {fields fields' : Fields Node}
    (hfields : Fields.Related
      (fun key => Beside (PathField (Inlines (Fields.fieldsAt t "components")) key)) fields fields') :
    (scopeOf t b models).SamePath (scopeOf u b models) fields fields' where
  parameters := by
    have hparameters : Option.Rel (Beside Eq) (Fields.get? fields "parameters")
        (Fields.get? fields' "parameters") :=
      get?_beside hfields "parameters" (if_neg (by decide))
    have hseen := h.seenOption_twins b models
      (optionRel_mono hparameters fun _ _ => Beside.sameTwins_of_eq)
    exact (h.itemsOf_twins b models hseen).mono fun _ _ hitems =>
      hitems.imp fun _ _ hnm => ⟨fun _ => SameTwins, h.alike b models, h.seen_twins b models hnm⟩
  isMapping method hmethod := by
    have hoperation := get?_beside hfields method (if_pos hmethod)
    refine h.isMapping b models (fun v w hvw => ?_) hoperation
    exact asText?_of_eq hvw
  operations method hmethod := by
    have hoperation := get?_beside hfields method (if_pos hmethod)
    refine ⟨fun _ => SameTwins, h.alike b models, ?_⟩
    refine (h.fieldsOf b models (fun v w hvw => asText?_of_eq hvw) hoperation).mono
      fun _ _ hown => h.sameOperation b models hchain hown

omit b models in
/-- The fields of both documents. -/
theorem Inlined.rootFields :
    Fields.Related (fun key => Beside (DocumentField (Inlines (Fields.fieldsAt t "components")) key))
      (Node.root (.mapping t)).fields (Node.root (.mapping u)).fields := by
  refine Beside.fields [] h.related (fun key v w hvw => ?_) h.left h.right
  by_cases hkey : key = "paths"
  · subst hkey
    exact Or.inr (List.suffix_refl _)
  · exact Or.inl (DocumentField.eq hkey hvw)

omit b models in
theorem Inlined.root_get? {key : String} (hkey : key ≠ "paths") :
    Option.Rel SameTwins (Fields.get? (Node.root (.mapping t)).fields key)
      (Fields.get? (Node.root (.mapping u)).fields key) :=
  optionRel_mono (get?_beside h.rootFields key (if_neg hkey)) fun _ _ => Beside.sameTwins_of_eq

/-- Parts of two documents that have the same interface, whatever names the models have. -/
def SameInterface (t u : Fields Value) (b : Bounds) (parts parts' : Scope.Parts) : Prop :=
  Fields.keys parts.schemas = Fields.keys parts'.schemas
    ∧ ∀ models, (scopeOf t b models).interface parts = (scopeOf u b models).interface parts'

theorem Inlined.parts (hchain : 0 < b.chain) :
    Agree (SameInterface t u b) ((scopeOf t b models).parts (.mapping t))
      ((scopeOf u b models).parts (.mapping u)) := by
  have htable := fun {n m : Option Node} (hnm : Option.Rel SameTwins n m) =>
    h.tableOf_twins b models (h.seenOption_twins b models hnm)
  unfold Scope.parts
  refine (htable (h.root_get? (by decide))).bind fun info info' hinfo => ?_
  refine (htable (h.root_get? (by decide))).bind fun components components' hcomponents => ?_
  refine (htable (hcomponents.get? "schemas")).bind
    fun schemas schemas' hschemas => .ok ⟨hschemas.keys, fun models => ?_⟩
  refine (h.alike b models).interface
    ⟨hschemas, hinfo, h.root_get? (by decide), hcomponents.get? "securitySchemes", ?_⟩
  have hpaths := get?_beside h.rootFields "paths" (if_pos rfl)
  refine (h.fieldsOf b models (fun _ _ => asText?_of_relatedMappings) hpaths).mono
    fun _ _ hpaths => hpaths.mono fun _ n m hitem => ?_
  refine (h.fieldsOf b models (fun v w hvw => ?_) (.some hitem)).mono
    fun _ _ hfields => h.samePath b models hchain hfields
  exact asText?_of_eq hvw

end

/-! ### Documents that can be linked -/

/-- What can be linked in the place of a value, if that can. -/
structure StaysLinked (v w : Value) : Prop where
  inside : misplaced? v = none → misplaced? w = none
  own : refText? v = none → refText? w = none

namespace StaysLinked

variable {v w : Value}

theorem of_eq (h : v = w) : StaysLinked v w := ⟨(h ▸ ·), (h ▸ ·)⟩

theorem mapping {r : String → Value → Value → Prop} (h : RelatedMappings r v w)
    (hr : ∀ key v w, r key v w → StaysLinked v w)
    (htext : ∀ v w, r refKey v w → v.asText? = w.asText?) : StaysLinked v w := by
  cases h with
  | same v => exact of_eq rfl
  | @fields t u hrel =>
      have hget := hrel.get? refKey
      constructor
      · intro hnone
        obtain ⟨hfields, href⟩ := misplaced?_mapping.mp hnone
        refine misplaced?_mapping.mpr
          ⟨forall_mem_of_forall₂ hrel (fun e f hef => (hr _ _ _ hef.2).inside) hfields, ?_⟩
        generalize Fields.get? t refKey = a at hget href
        generalize Fields.get? u refKey = b at hget
        cases hget with
        | none => rfl
        | some hvw => exact (hr _ _ _ hvw).own href
      · show (Fields.get? t refKey).bind _ = none → (Fields.get? u refKey).bind _ = none
        intro hnone
        generalize Fields.get? t refKey = a at hget hnone
        generalize Fields.get? u refKey = b at hget
        cases hget with
        | none => rfl
        | some hvw => exact (htext _ _ hvw).symm.trans hnone

theorem list {r : Value → Value → Prop} (h : RelatedLists r v w)
    (hr : ∀ v w, r v w → StaysLinked v w) : StaysLinked v w := by
  cases h with
  | same v => exact of_eq rfl
  | @items vs ws hrel =>
      refine ⟨fun hnone => misplaced?_list.mpr ?_, fun _ => rfl⟩
      exact forall_mem_of_forall₂ hrel (fun v w hvw => (hr v w hvw).inside)
        (misplaced?_list.mp hnone)

theorem inlines {components : Fields Value} (hcomponents : misplaced? (.mapping components) = none)
    (h : Inlines components v w) : StaysLinked v w := by
  have hpart : ∀ {fields : Fields Value} {key : String} {v : Value},
      misplaced? (.mapping fields) = none → Fields.get? fields key = some v → misplaced? v = none :=
    fun hnone hget => (misplaced?_mapping.mp hnone).1 _ (Fields.mem_of_get? hget)
  cases h with
  | same v => exact of_eq rfl
  | entry ref_text lead beside entries_part entries_plain target_name target_plain target_refs =>
      exact ⟨fun _ => hpart (hpart hcomponents entries_part) target_name, fun _ => target_plain⟩

end StaysLinked

/-- **A document can be linked with references of its operations written out.** -/
theorem Inlined.linkable {t u : Fields Value} (h : Inlined t u)
    (hnone : misplaced? (.mapping t) = none) : misplaced? (.mapping u) = none := by
  have hcomponents : misplaced? (.mapping (Fields.fieldsAt t "components")) = none := by
    unfold Fields.fieldsAt
    cases hget : Fields.get? t "components" with
    | none => rfl
    | some v =>
        have hv := (misplaced?_mapping.mp hnone).1 _ (Fields.mem_of_get? hget)
        cases v with
        | mapping fields => exact hv
        | list vs => rfl
        | scalar s => rfl
  have hentry : ∀ v w, Inlines (Fields.fieldsAt t "components") v w → StaysLinked v w :=
    fun v w => StaysLinked.inlines hcomponents
  have hoperation : ∀ key v w, OperationField (Inlines (Fields.fieldsAt t "components")) key v w →
      StaysLinked v w := by
    intro key v w hvw
    unfold OperationField at hvw
    split at hvw
    · exact .list hvw hentry
    · split at hvw
      · exact hentry v w hvw
      · split at hvw
        · exact .mapping hvw (fun _ => hentry) fun _ _ => asText?_of_inlines
        · exact .of_eq hvw
  have hitem : ∀ key v w, PathField (Inlines (Fields.fieldsAt t "components")) key v w →
      StaysLinked v w := by
    intro key v w hvw
    unfold PathField at hvw
    split at hvw
    · exact .mapping hvw hoperation fun _ _ hvw => asText?_of_eq hvw
    · exact .of_eq hvw
  have hpaths : ∀ key v w, DocumentField (Inlines (Fields.fieldsAt t "components")) key v w →
      StaysLinked v w := by
    intro key v w hvw
    unfold DocumentField at hvw
    split at hvw
    · exact .mapping hvw (fun _ _ _ hvw => .mapping hvw hitem fun _ _ hvw => asText?_of_eq hvw)
        fun _ _ => asText?_of_relatedMappings
    · exact .of_eq hvw
  exact (StaysLinked.mapping (.fields h.related) hpaths fun _ _ hvw => asText?_of_eq hvw).inside hnone

/-! ### The interfaces -/

/-- What an extraction does with a document that can be linked. -/
theorem run_eq {d : CanonicalDocument} {t : Fields Value}
    (hd : Linked.ofFields d.fields = .ok ⟨.mapping t⟩) (more : Bounds) :
    run more d = (do
      let b := (Bounds.ofDocument (.mapping t)).widened more
      let parts ← (scopeOf t b []).parts (.mapping t)
      let models := modelNames (Fields.keys parts.schemas)
      ((scopeOf t b models).interface parts).run { models := models.map Prod.snd }) := by
  unfold run prepare
  rw [hd]
  dsimp only
  show (((scopeOf t _ []).parts (.mapping t) >>= _) >>= _) = _
  rw [bind_assoc]
  rfl

section

variable {d e : CanonicalDocument} {t u : Fields Value}
  (hd : Linked.ofFields d.fields = .ok ⟨.mapping t⟩)
  (he : Linked.ofFields e.fields = .ok ⟨.mapping u⟩)

include hd he

/--
**Documents with the same parts describe the same interface**, if they have the same parts within
the bounds of both.
-/
theorem extract_eq_of_parts (h : ∀ b : Bounds, 0 < b.chain → Agree (SameInterface t u b)
      ((scopeOf t b []).parts (.mapping t)) ((scopeOf u b []).parts (.mapping u))) :
    extract d = extract e := by
  have hbounds : (Bounds.ofDocument (.mapping u)).widened (Bounds.ofDocument (.mapping t))
      = (Bounds.ofDocument (.mapping t)).widened (Bounds.ofDocument (.mapping u)) := by
    simp [Bounds.widened, Nat.add_comm]
  have hchain :
      0 < ((Bounds.ofDocument (.mapping t)).widened (Bounds.ofDocument (.mapping u))).chain :=
    Nat.lt_add_right _ (Nat.succ_pos _)
  have hjoined : run (Bounds.ofDocument (.mapping u)) d = run (Bounds.ofDocument (.mapping t)) e := by
    rw [run_eq hd, run_eq he, hbounds]
    refine (h _ hchain).bind_eq fun parts parts' hparts => ?_
    dsimp only
    rw [hparts.1, hparts.2]
  unfold extract
  rw [← run_widened (Bounds.ofDocument (.mapping u)) d,
    ← run_widened (Bounds.ofDocument (.mapping t)) e, hjoined]

/-- **A document describes the same interface as with references of its operations written out.** -/
theorem extract_eq_of_inlined (h : Inlined t u) : extract d = extract e :=
  extract_eq_of_parts hd he fun b hchain => h.parts b [] hchain

end

end ApiClientGen.Extraction
