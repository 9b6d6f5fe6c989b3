/-
The same places, with the schemas brought down.

A description whose schemas are brought down has the same places as before, apart from those in a
schema that are written in another way.  At each of them stands what was there, brought down by
its kind, if what was there is right for its kind: keys are distinct, lists stand where lists are
expected, and a reference leads to a place of the kind of its own.  So pointers and references
lead to the same places in both.
-/
import ApiClientGen.Proofs.Canonical.ByKind
import ApiClientGen.Proofs.Extraction.Twins
import ApiClientGen.Proofs.Reference.Linking

namespace ApiClientGen.Extraction

open ApiClientGen.Canonical ApiClientGen.Document ApiClientGen.Reference
  ApiClientGen.Reference.Linked ApiClientGen.Source ApiClientGen.Text

/-! ### Descriptions that are read alike -/

mutual

/-- The values at all places in a value that are of some kind, with their kinds. -/
def placesOf : Kind → Value → List (Kind × Value)
  | kind, .scalar s => [(kind, .scalar s)]
  | kind, .list vs => (kind, .list vs) :: placesOfItems kind.item vs
  | kind, .mapping fields => (kind, .mapping fields) :: placesOfFields kind fields

/-- The values at all such places in the items of a list. -/
def placesOfItems : Kind → List Value → List (Kind × Value)
  | _, [] => []
  | kind, v :: rest => placesOf kind v ++ placesOfItems kind rest

/-- The values at all such places in the fields of a mapping. -/
def placesOfFields : Kind → List (String × Value) → List (Kind × Value)
  | _, [] => []
  | kind, (key, v) :: rest =>
    (if kind.under key = .changing then [] else placesOf (kind.under key) v)
      ++ placesOfFields kind rest

end

/-- A reference into its own document, whose pointer leads to a place of a kind. -/
def LeadsTo (kind : Kind) (ref : String) : Prop :=
  kind ≠ .changing ∧ kind ≠ .document ∧ ∃ pointer ∈ textAfter? "#" ref,
    IsWithout ['\t', '\r', '\n'] pointer ∧ Kind.along .document (pointerParts pointer) = kind

instance (kind : Kind) (ref : String) : Decidable (LeadsTo kind ref) :=
  inferInstanceAs (Decidable (_ ∧ _ ∧ ∃ pointer ∈ textAfter? "#" ref, _ ∧ _ = _))

/-- A value without parts that stays as it is when it is written anew. -/
def isAtom : Value → Bool
  | .scalar (.bytes _) => false
  | .scalar _ => true
  | _ => false

/-- Whether a value names a type, or lists such names. -/
def namesTypes : Value → Bool
  | .list types => types.all isAtom
  | type => isAtom type

/-- Whether a value lists values without parts that are not all texts, null apart. -/
def listsOthers : Value → Bool
  | .list vs => vs.all isAtom
      && ((vs.filter (· ≠ .null)).isEmpty || vs.any fun v => v ≠ .null && v.asText?.isNone)
  | _ => false

/-- A schema that has neither texts to choose from nor properties nor parts. -/
structure IsBare (schema : Fields Value) : Prop where
  enum : ∀ v ∈ Fields.get? schema "enum", listsOthers v = true
  allOf : ∀ v ∈ Fields.get? schema "allOf", v = .list []
  properties : ∀ v ∈ Fields.get? schema "properties", v = .mapping []

instance (schema : Fields Value) : Decidable (IsBare schema) :=
  decidable_of_iff
    ((∀ v ∈ Fields.get? schema "enum", listsOthers v = true)
      ∧ (∀ v ∈ Fields.get? schema "allOf", v = .list [])
      ∧ ∀ v ∈ Fields.get? schema "properties", v = .mapping [])
    ⟨fun ⟨henum, hallOf, hproperties⟩ => ⟨henum, hallOf, hproperties⟩,
      fun h => ⟨h.enum, h.allOf, h.properties⟩⟩

/-- **A schema that says the same in both versions.** -/
structure SaysTheSame (schema : Fields Value) : Prop where
  const : Fields.get? schema "const" = none
  types : ∀ v ∈ Fields.get? schema "type", v ≠ nullType ∧ namesTypes v = true
  /-- Null is listed where the types are looked at, or said beside them. -/
  null : nullType ∈ Fields.itemsAt schema "type" →
    Fields.get? schema "nullable" = some (.bool true) ∨ IsBare schema
  /-- Something is left of the schema when it is brought down. -/
  kept : downgradeSchema (mapInner downgradeSchema schema) = [] → schema = []

instance (schema : Fields Value) : Decidable (SaysTheSame schema) :=
  decidable_of_iff
    (Fields.get? schema "const" = none
      ∧ (∀ v ∈ Fields.get? schema "type", v ≠ nullType ∧ namesTypes v = true)
      ∧ (nullType ∈ Fields.itemsAt schema "type" →
        Fields.get? schema "nullable" = some (.bool true) ∨ IsBare schema)
      ∧ (downgradeSchema (mapInner downgradeSchema schema) = [] → schema = []))
    ⟨fun ⟨hconst, htypes, hnull, hkept⟩ => ⟨hconst, htypes, hnull, hkept⟩,
      fun h => ⟨h.const, h.types, h.null, h.kept⟩⟩

/-- **A value that is right for its kind.** -/
def Fits : Kind → Value → Prop
  | _, .scalar _ => True
  | kind, .list _ => kind = .plain ∨ kind = .list kind.item
  | kind, .mapping fields =>
    kind ≠ .list kind.item ∧ (Fields.keys fields).Nodup
      ∧ (∀ ref ∈ Fields.textAt? fields refKey, LeadsTo kind ref)
      ∧ (kind = .schema → SaysTheSame fields)

instance (kind : Kind) (v : Value) : Decidable (Fits kind v) :=
  match v with
  | .scalar _ => inferInstanceAs (Decidable True)
  | .list _ => inferInstanceAs (Decidable (_ = _ ∨ _ = _))
  | .mapping _ => inferInstanceAs (Decidable (_ ≠ _ ∧ _ ∧ (∀ ref ∈ _, LeadsTo _ _) ∧ (_ = _ → _)))

/-- A value in which everything is right for its kind. -/
def AllFit (kind : Kind) (v : Value) : Prop := ∀ p ∈ placesOf kind v, Fits p.1 p.2

instance (kind : Kind) (v : Value) : Decidable (AllFit kind v) :=
  inferInstanceAs (Decidable (∀ p ∈ placesOf kind v, Fits p.1 p.2))

namespace AllFit

variable {kind : Kind} {v : Value} {vs : List Value} {fields : Fields Value} {key : String}

theorem fits (h : AllFit kind v) : Fits kind v := by
  cases v with
  | scalar s => trivial
  | list vs => exact h _ (by rw [placesOf]; exact List.mem_cons_self ..)
  | mapping fields => exact h _ (by rw [placesOf]; exact List.mem_cons_self ..)

theorem atom (kind : Kind) (s : Scalar) : AllFit kind (.scalar s) := by
  intro p hp
  rw [placesOf, List.mem_singleton] at hp
  subst hp
  trivial

theorem item (h : AllFit kind (.list vs)) : ∀ v ∈ vs, AllFit kind.item v := by
  have hsub : ∀ v ∈ vs, placesOf kind.item v ⊆ placesOfItems kind.item vs := by
    clear h
    intro v hv
    induction vs with
    | nil => cases hv
    | cons w rest ih =>
        rw [placesOfItems]
        rcases List.mem_cons.mp hv with rfl | hv
        · exact List.subset_append_left _ _
        · exact List.Subset.trans (ih hv) (List.subset_append_right _ _)
  intro v hv p hp
  refine h p ?_
  rw [placesOf]
  exact List.mem_cons_of_mem _ (hsub v hv hp)

theorem field (h : AllFit kind (.mapping fields)) (hmem : (key, v) ∈ fields) {of : Kind}
    (hkey : kind.Has key of) : AllFit of v := by
  obtain ⟨rfl, hne⟩ := hkey
  have hsub : placesOf (kind.under key) v ⊆ placesOfFields kind fields := by
    clear h
    induction fields with
    | nil => cases hmem
    | cons e rest ih =>
        obtain ⟨k, w⟩ := e
        rw [placesOfFields]
        rcases List.mem_cons.mp hmem with heq | hmem
        · cases heq
          rw [if_neg hne]
          exact List.subset_append_left _ _
        · exact List.Subset.trans (ih hmem) (List.subset_append_right _ _)
  intro p hp
  refine h p ?_
  rw [placesOf]
  exact List.mem_cons_of_mem _ (hsub hp)

end AllFit

/-! ### Values that are brought down by their kind -/

section

variable {kind : Kind} {v : Value} {fields : Fields Value}

theorem asText?_mapAt (change : Fields Value → Fields Value) (kind : Kind) (v : Value) :
    (mapAt change kind v).asText? = v.asText? := by
  cases v with
  | scalar s => rw [mapAt_scalar]
  | list vs => rw [mapAt_list]; rfl
  | mapping fields =>
      by_cases hkind : kind = .schema
      · subst hkind
        rfl
      · rw [mapAt_mapping hkind]
        rfl

/--
**What a mapping becomes**: under the keys about which something may be said, it has what it had,
brought down.
-/
structure BroughtDown (kind : Kind) (fields fields' : Fields Value) : Prop where
  value : mapAt downgradeSchema kind (.mapping fields) = .mapping fields'
  nodup : (Fields.keys fields').Nodup
  get? : ∀ key of, kind.Has key of →
    Fields.get? fields' key = (Fields.get? fields key).map (mapAt downgradeSchema of)
  ref : Fields.textAt? fields' refKey = Fields.textAt? fields refKey
  isEmpty : fields'.isEmpty = fields.isEmpty

theorem AllFit.exists_broughtDown (h : AllFit kind (.mapping fields)) :
    ∃ fields', BroughtDown kind fields fields' := by
  obtain ⟨-, hnodup, -, hschema⟩ := h.fits
  by_cases hkind : kind = .schema
  · subst hkind
    have hsame := hschema rfl
    refine ⟨downgradeSchema (mapInner downgradeSchema fields), rfl,
      nodup_keys_downgradeSchema ((keys_mapInner _ _).symm ▸ hnodup),
      fun key of hkey => get?_downgraded hsame.const hkey, ?_, ?_⟩
    · rw [Fields.textAt?, get?_downgraded hsame.const (show Kind.Has _ refKey .plain by decide)]
      exact congrArg (fun o => Option.bind o Value.asText?) Option.map_id'
    · rw [Bool.eq_iff_iff, List.isEmpty_iff, List.isEmpty_iff]
      refine ⟨hsame.kept, ?_⟩
      rintro rfl
      rfl
  · have hget : ∀ key, Fields.get? (fields.map fun e =>
          (e.1, mapAt downgradeSchema (kind.under e.1) e.2)) key
        = (Fields.get? fields key).map (mapAt downgradeSchema (kind.under key)) :=
      fun key => Fields.get?_map (fun key => mapAt downgradeSchema (kind.under key)) fields key
    refine ⟨_, mapAt_mapping hkind fields, ?_, ?_, ?_, ?_⟩
    · rwa [Fields.keys_map fun key => mapAt downgradeSchema (kind.under key)]
    · rintro key of ⟨rfl, -⟩
      exact hget key
    · rw [Fields.textAt?, hget, Fields.textAt?, Option.bind_map]
      exact congrArg _ (funext fun v => asText?_mapAt _ _ v)
    · exact List.isEmpty_map

theorem withoutBytes_atom {v : Value} (hv : isAtom v = true) : withoutBytes v = v := by
  cases v with
  | scalar s =>
      cases s with
      | bytes bs => cases hv
      | _ => rfl
  | _ => cases hv

theorem withoutBytes_atoms {vs : List Value} (hvs : ∀ v ∈ vs, isAtom v = true) :
    withoutBytes (.list vs) = .list vs := by
  rw [withoutBytes_list, List.map_congr_left fun v hv => withoutBytes_atom (hvs v hv), List.map_id']

theorem get?_fields_withoutBytes (hnodup : (Fields.keys fields).Nodup) (place : Place)
    (key : String) :
    Fields.get? (Node.fields ⟨place, withoutBytes (.mapping fields)⟩) key
      = (Fields.get? fields key).map fun v => ⟨.field key :: place, withoutBytes v⟩ := by
  rw [withoutBytes_mapping hnodup, get?_fields_node, Node.field?, Value.asFields,
    Fields.get?_map fun _ => withoutBytes, Option.map_map]
  rfl

end

/-! ### The same place of both canonical forms -/

/-- **The same place of both canonical forms**: what fits its kind, and that brought down. -/
inductive Lowered : Kind → Node → Node → Prop where
  | intro {kind : Kind} {v : Value} (place : Place) (fits : AllFit kind v) :
      Lowered kind ⟨place, withoutBytes v⟩ ⟨place, withoutBytes (mapAt downgradeSchema kind v)⟩

namespace Lowered

variable {k c : Kind} {n m : Node} {key : String}

theorem place (h : Lowered k n m) : n.place = m.place := by
  cases h
  rfl

theorem atom (k : Kind) (place : Place) {s : Scalar} (hs : isAtom (.scalar s) = true) :
    Lowered k ⟨place, .scalar s⟩ ⟨place, .scalar s⟩ := by
  have h := Lowered.intro place (AllFit.atom k s)
  rwa [mapAt_scalar, withoutBytes_atom hs] at h

/-- A value without parts may become a list when it is written anew, but no mapping. -/
theorem asFields_scalar (s : Scalar) : (withoutBytes (.scalar s)).asFields = [] := by
  cases s <;> rfl

theorem items_scalar (place : Place) (s : Scalar) :
    ∀ n ∈ Node.items ⟨place, withoutBytes (.scalar s)⟩, Lowered k n n := by
  intro n hn
  obtain ⟨i, hi, rfl⟩ := List.mem_mapIdx.mp hn
  cases s with
  | bytes bs =>
      simp only [withoutBytes, Value.asItems, List.getElem_map]
      exact atom k _ rfl
  | _ => exact absurd hi (by simp [withoutBytes, Value.asItems])

theorem part?_scalar (place : Place) (s : Scalar) {part : String} {child : Node}
    (h : Node.part? ⟨place, withoutBytes (.scalar s)⟩ part = some child) :
    Lowered k child child := by
  cases s with
  | string text =>
      obtain ⟨i, -, h⟩ := Option.bind_eq_some_iff.mp h
      obtain ⟨c, -, h⟩ := Option.bind_eq_some_iff.mp h
      cases h
      exact atom k _ rfl
  | bytes bs =>
      obtain ⟨i, -, h⟩ := Option.bind_eq_some_iff.mp h
      obtain ⟨v, hv, h⟩ := Option.bind_eq_some_iff.mp h
      cases h
      obtain ⟨b, -, rfl⟩ := List.mem_map.mp (List.mem_of_getElem? hv)
      exact atom k _ rfl
  | _ => cases h

theorem shape (h : Lowered k n m) : SameShape n.value m.value := by
  cases h with
  | @intro v place fits =>
      cases v with
      | scalar s => rw [mapAt_scalar]; exact .same _
      | list vs =>
          rw [mapAt_list, withoutBytes_list, withoutBytes_list]
          exact .list (by simp)
      | mapping fields =>
          obtain ⟨fields', hfields⟩ := fits.exists_broughtDown
          rw [hfields.value, withoutBytes_mapping fits.fits.2.1, withoutBytes_mapping hfields.nodup]
          refine .mapping (by rw [List.isEmpty_map, List.isEmpty_map, hfields.isEmpty]) ?_
          rw [textAt?_withoutBytes, textAt?_withoutBytes, hfields.ref]

theorem value (h : Lowered .plain n m) : n.value = m.value := by
  cases h
  rfl

theorem field (h : Lowered k n m) (hkey : k.Has key c) :
    Option.Rel (Lowered c) (Fields.get? n.fields key) (Fields.get? m.fields key) := by
  cases h with
  | @intro v place fits =>
      cases v with
      | scalar s =>
          rw [mapAt_scalar, Node.fields, asFields_scalar]
          exact .none
      | list vs =>
          rw [mapAt_list]
          exact .none
      | mapping fields =>
          obtain ⟨fields', hfields⟩ := fits.exists_broughtDown
          rw [hfields.value, get?_fields_withoutBytes fits.fits.2.1,
            get?_fields_withoutBytes hfields.nodup, hfields.get? key c hkey, Option.map_map]
          cases hv : Fields.get? fields key with
          | none => exact .none
          | some v => exact .some (.intro _ (fits.field (Fields.mem_of_get? hv) hkey))

theorem fields (h : Lowered k n m) (hk : ∀ key, k.Has key c) :
    Fields.Related (fun _ => Lowered c) n.fields m.fields := by
  have hkind : k ≠ .schema := by
    rintro rfl
    exact absurd (hk "type").1 (fun heq => (hk "type").2 (heq ▸ by decide))
  cases h with
  | @intro v place fits =>
      cases v with
      | scalar s =>
          rw [mapAt_scalar, Node.fields, asFields_scalar]
          exact .nil
      | list vs =>
          rw [mapAt_list]
          exact .nil
      | mapping fields =>
          have hnodup := fits.fits.2.1
          have hnodup' : (Fields.keys (fields.map fun e =>
              (e.1, mapAt downgradeSchema (k.under e.1) e.2))).Nodup := by
            rwa [Fields.keys_map fun key => mapAt downgradeSchema (k.under key)]
          rw [mapAt_mapping hkind, withoutBytes_mapping hnodup, withoutBytes_mapping hnodup']
          unfold Node.fields Value.asFields
          dsimp only
          rw [List.map_map, List.map_map, List.map_map]
          refine List.forall₂_map_left_iff.mpr (List.forall₂_map_right_iff.mpr
            (List.forall₂_same.mpr fun e he => ⟨rfl, ?_⟩))
          have hunder := (hk e.1).1
          subst hunder
          exact .intro _ (fits.field he (hk e.1))

theorem items (h : Lowered k n m) : List.Forall₂ (Lowered k.item) n.items m.items := by
  cases h with
  | @intro v place fits =>
      cases v with
      | scalar s =>
          rw [mapAt_scalar]
          exact List.forall₂_same.mpr (items_scalar place s)
      | mapping fields =>
          obtain ⟨fields', hfields⟩ := fits.exists_broughtDown
          rw [hfields.value]
          exact .nil
      | list vs =>
          rw [mapAt_list, withoutBytes_list, withoutBytes_list, Node.items, Node.items,
            List.forall₂_iff_get]
          refine ⟨by simp [Value.asItems], fun i hi hi' => ?_⟩
          simp only [Value.asItems, List.get_eq_getElem, List.getElem_mapIdx, List.getElem_map]
          exact .intro _ (fits.item _ (List.getElem_mem _))

/-- A reference at a place leads to one of the same kind. -/
theorem leadsTo (h : Lowered k n m) {ref : String} (href : n.ref? = some ref) : LeadsTo k ref := by
  cases h with
  | @intro v place fits =>
      cases v with
      | scalar s => cases s <;> cases href
      | list vs => cases href
      | mapping fields =>
          obtain ⟨-, hnodup, hrefs, -⟩ := fits.fits
          refine hrefs ref ?_
          rw [withoutBytes_mapping hnodup] at href
          exact (textAt?_withoutBytes fields refKey).symm.trans href

theorem part? (h : Lowered k n m) {part : String} (hk : k.step part ≠ .changing) :
    Option.Rel (Lowered (k.step part)) (n.part? part) (m.part? part) := by
  cases h with
  | @intro v place fits =>
      cases v with
      | scalar s =>
          rw [mapAt_scalar]
          exact optionRel_self fun child hchild => part?_scalar place s hchild
      | list vs =>
          have hstep : k.step part = k.item := by
            rcases fits.fits with rfl | hlist
            · rfl
            · rw [hlist]; rfl
          rw [hstep, mapAt_list, withoutBytes_list, withoutBytes_list]
          simp only [Node.part?, List.length_map, List.getElem?_map]
          cases Node.indexOf? vs.length part with
          | none => exact .none
          | some i =>
              cases hv : vs[i]? with
              | none =>
                  simp only [Option.bind_eq_bind, Option.bind_some, hv, Option.map_none,
                    Option.bind_none]
                  exact .none
              | some v =>
                  simp only [Option.bind_eq_bind, Option.bind_some, hv, Option.map_some]
                  exact .some (.intro _ (fits.item v (List.mem_of_getElem? hv)))
      | mapping fields =>
          have hstep : k.step part = k.under part := by
            obtain ⟨hlist, -⟩ := fits.fits
            cases k with
            | list k => exact absurd rfl hlist
            | _ => rfl
          rw [hstep] at hk ⊢
          have hfield := (Lowered.intro place fits).field ⟨rfl, hk⟩
          obtain ⟨fields', hfields⟩ := fits.exists_broughtDown
          rw [hfields.value, withoutBytes_mapping fits.fits.2.1, withoutBytes_mapping hfields.nodup,
            get?_fields_node, get?_fields_node] at hfield
          rw [hfields.value, withoutBytes_mapping fits.fits.2.1, withoutBytes_mapping hfields.nodup]
          exact hfield

/-- **A pointer leads to the same place** of both canonical forms, if it passes no other place. -/
theorem walk {f g : Node → Except Fault Node}
    (hfg : ∀ k a b, Lowered k a b → Agree (Lowered k) (f a) (g b)) {ref pointer : String}
    {self : Place} {parts : List String} (h : Lowered k n m) (halong : k.along parts = c)
    (hc : c ≠ .changing) :
    Agree (Lowered c) (Linked.walk f ref pointer self n parts)
      (Linked.walk g ref pointer self m parts) := by
  induction parts generalizing k n m with
  | nil =>
      obtain rfl : k = c := halong
      exact .ok h
  | cons part rest ih =>
      have hstep : k.step part ≠ .changing := by
        intro hchanging
        refine hc (halong.symm.trans ?_)
        show (k.step part).along rest = _
        rw [hchanging, Kind.along_changing]
      have hhere : Agree (Lowered k) (if n.place = self then .ok n else f n)
          (if m.place = self then .ok m else g m) := by
        rw [h.place]
        split
        · exact .ok h
        · exact hfg k n m h
      rw [walk_cons, walk_cons]
      exact hhere.bind fun _ _ hhere => (agree_stepTo (hhere.part? hstep)).bind fun _ _ hnext =>
        ih hnext halong

end Lowered

/-- **Two documents that have the same places.** -/
structure SamePlaces (t u : Fields Value) : Prop where
  field : ∀ key kind, Kind.document.Has key kind →
    Option.Rel (Lowered kind) (Fields.get? (Node.root (.mapping t)).fields key)
      (Fields.get? (Node.root (.mapping u)).fields key)
  left : Fields.textAt? t refKey = none
  right : Fields.textAt? u refKey = none

/-- **References at the same place lead to the same place**, along chains of every length. -/
theorem SamePlaces.followWithin {t u : Fields Value} (h : SamePlaces t u) (length : Nat) {k : Kind}
    {n m : Node} (hnm : Lowered k n m) :
    Agree (Lowered k) (Linked.followWithin ⟨.mapping t⟩ length n)
      (Linked.followWithin ⟨.mapping u⟩ length m) := by
  induction length generalizing k n m with
  | zero =>
      have href : n.ref? = m.ref? := hnm.shape.refText?
      unfold Linked.followWithin
      rw [href]
      split
      · exact .error _
      · exact .ok hnm
  | succ length ih =>
      have href : n.ref? = m.ref? := hnm.shape.refText?
      cases hn : n.ref? with
      | none =>
          rw [followWithin_of_none hn, followWithin_of_none (href ▸ hn)]
          exact .ok hnm
      | some ref =>
          obtain ⟨hchanging, hdocument, pointer, hpointer, hwithout, halong⟩ := hnm.leadsTo hn
          obtain rfl := textAfter?_eq_some.mp hpointer
          rw [followWithin_of_some hn, followWithin_of_some (href ▸ hn), target_fragment hwithout]
          have hwalk : Agree (Lowered k)
              (Linked.walk (Linked.followWithin ⟨.mapping t⟩ length) ("#" ++ pointer) pointer n.place
                (.root (.mapping t)) (pointerParts pointer))
              (Linked.walk (Linked.followWithin ⟨.mapping u⟩ length) ("#" ++ pointer) pointer m.place
                (.root (.mapping u)) (pointerParts pointer)) := by
            cases hparts : pointerParts pointer with
            | nil =>
                rw [hparts] at halong
                exact absurd halong.symm hdocument
            | cons part rest =>
                rw [hparts] at halong
                have hpart : Kind.document.Has part (Kind.document.under part) := by
                  refine ⟨rfl, fun hno => hchanging (halong.symm.trans ?_)⟩
                  show (Kind.document.under part).along rest = _
                  rw [hno, Kind.along_changing]
                have hfield := h.field part _ hpart
                rw [get?_fields_node, get?_fields_node] at hfield
                rw [walk_cons_of_self (followWithin_of_none (n := .root (.mapping t)) h.left length),
                  walk_cons_of_self (followWithin_of_none (n := .root (.mapping u)) h.right length),
                  hnm.place]
                refine (agree_stepTo hfield).bind fun next next' hnext => ?_
                exact hnext.walk (fun k a b hab => ih hab) halong hchanging
          refine hwalk.bind fun reached reached' hreached => ?_
          rw [hreached.place, hnm.place]
          split
          · exact .error _
          · exact ih hreached

end ApiClientGen.Extraction
