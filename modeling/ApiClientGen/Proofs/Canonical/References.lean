/-
References in values, and what rewriting makes of them.

A reference is a text under the key of references, at any depth.  A value is known by the texts
of its references, in order, and by what is left when these texts are blanked out.  Rewriting
leaves what is left alone and gives each text its new beginning, and as no new beginning is an
old one, doing it once more finds nothing.

Most of what builds a canonical form only moves values around.  What is true of all references
in a table stays true when entries are written, left out, picked or moved to other keys, and
that is stated once for each way of building a table.
-/
import ApiClientGen.Canonical.Document
import ApiClientGen.Canonical.References
import ApiClientGen.Proofs.Document.Tables
import ApiClientGen.Proofs.Reference.Pointers

namespace ApiClientGen.Canonical

open ApiClientGen.Document ApiClientGen.Text

mutual

/-- The texts of the references in a value, in order. -/
def refTexts : Value → List String
  | .scalar _ => []
  | .list vs => refTextsOfItems vs
  | .mapping fields => refTextsOfFields fields

/-- The texts of the references in a list. -/
def refTextsOfItems : List Value → List String
  | [] => []
  | v :: rest => refTexts v ++ refTextsOfItems rest

/-- The texts of the references in some fields. -/
def refTextsOfFields : List (String × Value) → List String
  | [] => []
  | (key, v) :: rest => refTextsAt key v ++ refTextsOfFields rest

/-- The texts of the references in what stands under a key. -/
def refTextsAt (key : String) : Value → List String
  | .scalar (.string s) => if key = "$ref" then [s] else []
  | .scalar _ => []
  | .list vs => refTextsOfItems vs
  | .mapping fields => refTextsOfFields fields

end

mutual

/-- A value with the texts of its references blanked out. -/
def withoutRefTexts : Value → Value
  | .scalar s => .scalar s
  | .list vs => .list (itemsWithoutRefTexts vs)
  | .mapping fields => .mapping (fieldsWithoutRefTexts fields)

/-- A list with the texts of its references blanked out. -/
def itemsWithoutRefTexts : List Value → List Value
  | [] => []
  | v :: rest => withoutRefTexts v :: itemsWithoutRefTexts rest

/-- Fields with the texts of their references blanked out. -/
def fieldsWithoutRefTexts : List (String × Value) → List (String × Value)
  | [] => []
  | (key, v) :: rest => (key, withoutRefTextsAt key v) :: fieldsWithoutRefTexts rest

/-- What stands under a key, with the texts of its references blanked out. -/
def withoutRefTextsAt (key : String) : Value → Value
  | .scalar (.string s) => .string (if key = "$ref" then "" else s)
  | .scalar s => .scalar s
  | .list vs => .list (itemsWithoutRefTexts vs)
  | .mapping fields => .mapping (fieldsWithoutRefTexts fields)

end

/-! ### One reference -/

/-- A reference gets a new beginning for an old one, or has no old one and stays. -/
theorem canonicalRef_cases (ref : String) :
    (∃ start ∈ refStarts, ∃ rest, ref = start.1 ++ rest ∧ canonicalRef ref = start.2 ++ rest)
      ∨ ((∀ start ∈ refStarts, textAfter? start.1 ref = none) ∧ canonicalRef ref = ref) := by
  unfold canonicalRef
  cases hfound : refStarts.findSome? fun s => (textAfter? s.1 ref).map (s.2 ++ ·) with
  | none =>
      rw [List.findSome?_eq_none_iff] at hfound
      exact Or.inr ⟨fun start hstart => Option.map_eq_none_iff.mp (hfound start hstart), rfl⟩
  | some new =>
      obtain ⟨start, hstart, hnew⟩ := List.exists_of_findSome?_eq_some hfound
      obtain ⟨rest, hrest, rfl⟩ := Option.map_eq_some_iff.mp hnew
      exact Or.inl ⟨start, hstart, rest, textAfter?_eq_some.mp hrest, rfl⟩

/-- No new beginning is continued to an old one. -/
theorem textAfter?_new {old new : String × String} (hold : old ∈ refStarts) (hnew : new ∈ refStarts)
    (rest : String) : textAfter? old.1 (new.2 ++ rest) = none := by
  simp only [refStarts, List.mem_cons, List.not_mem_nil, or_false] at hold hnew
  rcases hold with rfl | rfl | rfl <;> rcases hnew with rfl | rfl | rfl <;>
    simp [textAfter?, after?]

/-- A reference in canonical form has no old beginning. -/
theorem textAfter?_canonicalRef {start : String × String} (hstart : start ∈ refStarts)
    (ref : String) : textAfter? start.1 (canonicalRef ref) = none := by
  rcases canonicalRef_cases ref with ⟨new, hnew, rest, -, heq⟩ | ⟨hnone, heq⟩
  · rw [heq]
    exact textAfter?_new hstart hnew rest
  · rw [heq]
    exact hnone start hstart

theorem canonicalRef_eq_self {ref : String}
    (h : ∀ start ∈ refStarts, textAfter? start.1 ref = none) : canonicalRef ref = ref := by
  rcases canonicalRef_cases ref with ⟨start, hstart, rest, hrest, -⟩ | ⟨-, heq⟩
  · have hnone := h start hstart
    rw [textAfter?_eq_some.mpr hrest] at hnone
    cases hnone
  · exact heq

/-- An old beginning is replaced by the new one. -/
theorem canonicalRef_append {start : String × String} (hstart : start ∈ refStarts) (rest : String) :
    canonicalRef (start.1 ++ rest) = start.2 ++ rest := by
  simp only [refStarts, List.mem_cons, List.not_mem_nil, or_false] at hstart
  rcases hstart with rfl | rfl | rfl <;>
    simp [canonicalRef, refStarts, List.findSome?, textAfter?, after?]

theorem canonicalRef_canonicalRef (ref : String) :
    canonicalRef (canonicalRef ref) = canonicalRef ref :=
  canonicalRef_eq_self fun _ hstart => textAfter?_canonicalRef hstart ref

/-! ### All references of a value -/

mutual

/-- Rewriting gives each reference its canonical form, and keeps their order. -/
theorem refTexts_canonicalRefs : (v : Value) →
    refTexts (canonicalRefs v) = (refTexts v).map canonicalRef
  | .scalar _ => rfl
  | .list vs => refTextsOfItems_canonicalRefItems vs
  | .mapping fields => refTextsOfFields_canonicalRefFields fields

theorem refTextsOfItems_canonicalRefItems : (vs : List Value) →
    refTextsOfItems (canonicalRefItems vs) = (refTextsOfItems vs).map canonicalRef
  | [] => rfl
  | v :: rest => by
      rw [canonicalRefItems, refTextsOfItems, refTexts_canonicalRefs v,
        refTextsOfItems_canonicalRefItems rest, refTextsOfItems, List.map_append]

theorem refTextsOfFields_canonicalRefFields : (fields : List (String × Value)) →
    refTextsOfFields (canonicalRefFields fields) = (refTextsOfFields fields).map canonicalRef
  | [] => rfl
  | (key, v) :: rest => by
      rw [canonicalRefFields, refTextsOfFields, refTextsAt_canonicalRefAt key v,
        refTextsOfFields_canonicalRefFields rest, refTextsOfFields, List.map_append]

theorem refTextsAt_canonicalRefAt (key : String) : (v : Value) →
    refTextsAt key (canonicalRefAt key v) = (refTextsAt key v).map canonicalRef
  | .scalar (.string s) => by by_cases h : key = "$ref" <;> simp [canonicalRefAt, refTextsAt, h]
  | .scalar .null | .scalar (.bool _) | .scalar (.int _) | .scalar (.float _) | .scalar (.date _)
  | .scalar (.moment _) | .scalar (.clock _) | .scalar (.bytes _) => rfl
  | .list vs => refTextsOfItems_canonicalRefItems vs
  | .mapping fields => refTextsOfFields_canonicalRefFields fields

end

mutual

/-- Rewriting changes nothing but the texts of references. -/
theorem withoutRefTexts_canonicalRefs : (v : Value) →
    withoutRefTexts (canonicalRefs v) = withoutRefTexts v
  | .scalar _ => rfl
  | .list vs => by
      rw [canonicalRefs, withoutRefTexts, itemsWithoutRefTexts_canonicalRefItems vs, withoutRefTexts]
  | .mapping fields => by
      rw [canonicalRefs, withoutRefTexts, fieldsWithoutRefTexts_canonicalRefFields fields,
        withoutRefTexts]

theorem itemsWithoutRefTexts_canonicalRefItems : (vs : List Value) →
    itemsWithoutRefTexts (canonicalRefItems vs) = itemsWithoutRefTexts vs
  | [] => rfl
  | v :: rest => by
      rw [canonicalRefItems, itemsWithoutRefTexts, withoutRefTexts_canonicalRefs v,
        itemsWithoutRefTexts_canonicalRefItems rest, itemsWithoutRefTexts]

theorem fieldsWithoutRefTexts_canonicalRefFields : (fields : List (String × Value)) →
    fieldsWithoutRefTexts (canonicalRefFields fields) = fieldsWithoutRefTexts fields
  | [] => rfl
  | (key, v) :: rest => by
      rw [canonicalRefFields, fieldsWithoutRefTexts, withoutRefTextsAt_canonicalRefAt key v,
        fieldsWithoutRefTexts_canonicalRefFields rest, fieldsWithoutRefTexts]

theorem withoutRefTextsAt_canonicalRefAt (key : String) : (v : Value) →
    withoutRefTextsAt key (canonicalRefAt key v) = withoutRefTextsAt key v
  | .scalar (.string s) => by
      by_cases h : key = "$ref" <;> simp [canonicalRefAt, withoutRefTextsAt, h]
  | .scalar .null | .scalar (.bool _) | .scalar (.int _) | .scalar (.float _) | .scalar (.date _)
  | .scalar (.moment _) | .scalar (.clock _) | .scalar (.bytes _) => rfl
  | .list vs => by
      rw [canonicalRefAt, withoutRefTextsAt, itemsWithoutRefTexts_canonicalRefItems vs,
        withoutRefTextsAt]
  | .mapping fields => by
      rw [canonicalRefAt, withoutRefTextsAt, fieldsWithoutRefTexts_canonicalRefFields fields,
        withoutRefTextsAt]

end

mutual

/-- A value whose references are in canonical form stays as it is. -/
theorem canonicalRefs_eq_self : (v : Value) → (∀ ref ∈ refTexts v, canonicalRef ref = ref) →
    canonicalRefs v = v
  | .scalar _, _ => rfl
  | .list vs, h => by rw [canonicalRefs, canonicalRefItems_eq_self vs h]
  | .mapping fields, h => by rw [canonicalRefs, canonicalRefFields_eq_self fields h]

theorem canonicalRefItems_eq_self : (vs : List Value) →
    (∀ ref ∈ refTextsOfItems vs, canonicalRef ref = ref) → canonicalRefItems vs = vs
  | [], _ => rfl
  | v :: rest, h => by
      rw [canonicalRefItems,
        canonicalRefs_eq_self v fun ref hmem => h ref (List.mem_append_left _ hmem),
        canonicalRefItems_eq_self rest fun ref hmem => h ref (List.mem_append_right _ hmem)]

theorem canonicalRefFields_eq_self : (fields : List (String × Value)) →
    (∀ ref ∈ refTextsOfFields fields, canonicalRef ref = ref) → canonicalRefFields fields = fields
  | [], _ => rfl
  | (key, v) :: rest, h => by
      rw [canonicalRefFields,
        canonicalRefAt_eq_self key v fun ref hmem => h ref (List.mem_append_left _ hmem),
        canonicalRefFields_eq_self rest fun ref hmem => h ref (List.mem_append_right _ hmem)]

theorem canonicalRefAt_eq_self (key : String) : (v : Value) →
    (∀ ref ∈ refTextsAt key v, canonicalRef ref = ref) → canonicalRefAt key v = v
  | .scalar (.string s), h => by
      by_cases hkey : key = "$ref"
      · rw [canonicalRefAt, if_pos hkey, h s (by simp [refTextsAt, hkey])]
      · rw [canonicalRefAt, if_neg hkey]
  | .scalar .null, _ | .scalar (.bool _), _ | .scalar (.int _), _ | .scalar (.float _), _
  | .scalar (.date _), _ | .scalar (.moment _), _ | .scalar (.clock _), _
  | .scalar (.bytes _), _ => rfl
  | .list vs, h => by rw [canonicalRefAt, canonicalRefItems_eq_self vs h]
  | .mapping fields, h => by rw [canonicalRefAt, canonicalRefFields_eq_self fields h]

end

/-- **Rewriting is idempotent.** -/
theorem canonicalRefs_canonicalRefs (v : Value) :
    canonicalRefs (canonicalRefs v) = canonicalRefs v := by
  refine canonicalRefs_eq_self _ fun ref hmem => ?_
  rw [refTexts_canonicalRefs] at hmem
  obtain ⟨source, -, rfl⟩ := List.mem_map.mp hmem
  exact canonicalRef_canonicalRef source

/-- **A change of values that rewrites references**, and nothing else. -/
structure RewritesRefs (rewrite : Value → Value) : Prop where
  /-- Each reference gets its canonical form, in place. -/
  refs : ∀ v, refTexts (rewrite v) = (refTexts v).map canonicalRef
  /-- What is not the text of a reference stays. -/
  rest : ∀ v, withoutRefTexts (rewrite v) = withoutRefTexts v
  /-- The canonical form of a reference only begins differently, if it differs at all. -/
  beginning : ∀ ref, canonicalRef ref = ref ∨ ∃ start ∈ refStarts, ∃ rest,
    ref = start.1 ++ rest ∧ canonicalRef ref = start.2 ++ rest
  /-- Doing it once more changes nothing. -/
  idempotent : ∀ v, rewrite (rewrite v) = rewrite v

theorem rewritesRefs_canonicalRefs : RewritesRefs canonicalRefs where
  refs := refTexts_canonicalRefs
  rest := withoutRefTexts_canonicalRefs
  beginning ref := (canonicalRef_cases ref).symm.imp_left And.right
  idempotent := canonicalRefs_canonicalRefs

/-! ### Looking into fields with rewritten references -/

theorem canonicalRefFields_eq_map (fields : Fields Value) :
    canonicalRefFields fields = fields.map fun e => (e.1, canonicalRefAt e.1 e.2) := by
  induction fields with
  | nil => rfl
  | cons e rest ih => rw [canonicalRefFields, ih, List.map_cons]

theorem get?_canonicalRefFields (fields : Fields Value) (key : String) :
    Fields.get? (canonicalRefFields fields) key
      = (Fields.get? fields key).map (canonicalRefAt key) := by
  rw [canonicalRefFields_eq_map, Fields.get?_map canonicalRefAt]

theorem fieldsAt_canonicalRefFields (fields : Fields Value) (key : String) :
    Fields.fieldsAt (canonicalRefFields fields) key
      = canonicalRefFields (Fields.fieldsAt fields key) := by
  have hat : ∀ v, (canonicalRefAt key v).asFields = canonicalRefFields v.asFields := by
    intro v
    cases v with
    | scalar s => cases s <;> rfl
    | list vs => rfl
    | mapping fields => rfl
  rw [Fields.fieldsAt, get?_canonicalRefFields, Fields.fieldsAt]
  cases Fields.get? fields key with
  | none => rfl
  | some v => exact hat v

theorem itemsAt_canonicalRefFields (fields : Fields Value) (key : String) :
    Fields.itemsAt (canonicalRefFields fields) key
      = canonicalRefItems (Fields.itemsAt fields key) := by
  have hat : ∀ v, (canonicalRefAt key v).asItems = canonicalRefItems v.asItems := by
    intro v
    cases v with
    | scalar s => cases s <;> rfl
    | list vs => rfl
    | mapping fields => rfl
  rw [Fields.itemsAt, get?_canonicalRefFields, Fields.itemsAt]
  cases Fields.get? fields key with
  | none => rfl
  | some v => exact hat v

theorem canonicalRefItems_eq_map (vs : List Value) :
    canonicalRefItems vs = vs.map canonicalRefs := by
  induction vs with
  | nil => rfl
  | cons v rest ih => rw [canonicalRefItems, ih, List.map_cons]

theorem textAt?_canonicalRefFields (fields : Fields Value) :
    Fields.textAt? (canonicalRefFields fields) "$ref"
      = (Fields.textAt? fields "$ref").map canonicalRef := by
  have hat : ∀ v, (canonicalRefAt "$ref" v).asText? = v.asText?.map canonicalRef := by
    intro v
    cases v with
    | scalar s => cases s <;> rfl
    | list vs => rfl
    | mapping fields => rfl
  rw [Fields.textAt?, get?_canonicalRefFields, Fields.textAt?]
  cases Fields.get? fields "$ref" with
  | none => rfl
  | some v => exact hat v

/-! ### What is true of all references -/

/-- All references in a value have a property. -/
def Refs (P : String → Prop) (v : Value) : Prop := ∀ ref ∈ refTexts v, P ref

/-- All references in what stands under a key have a property. -/
def RefsAt (P : String → Prop) (key : String) (v : Value) : Prop := ∀ ref ∈ refTextsAt key v, P ref

/-- All references in some fields have a property. -/
def RefsIn (P : String → Prop) (fields : Fields Value) : Prop :=
  ∀ ref ∈ refTextsOfFields fields, P ref

instance (P : String → Prop) [DecidablePred P] (fields : Fields Value) :
    Decidable (RefsIn P fields) :=
  List.decidableBAll P (refTextsOfFields fields)

section

variable {P : String → Prop} {t u : Fields Value} {key : String} {v : Value}

theorem refsIn_iff : RefsIn P t ↔ ∀ e ∈ t, RefsAt P e.1 e.2 := by
  induction t with
  | nil => simp [RefsIn, refTextsOfFields]
  | cons e t ih =>
      obtain ⟨k, v⟩ := e
      simp only [RefsIn, refTextsOfFields, List.forall_mem_append, List.forall_mem_cons] at ih ⊢
      rw [ih]
      rfl

theorem refs_list {vs : List Value} : Refs P (.list vs) ↔ ∀ v ∈ vs, Refs P v := by
  show (∀ ref ∈ refTextsOfItems vs, P ref) ↔ _
  induction vs with
  | nil => simp [refTextsOfItems]
  | cons v vs ih =>
      simp only [refTextsOfItems, List.forall_mem_append, List.forall_mem_cons, ih]
      rfl

/-- A value has no more references than what stands under a key. -/
theorem RefsAt.refs (h : RefsAt P key v) : Refs P v := by
  cases v with
  | scalar s => exact fun ref hmem => nomatch hmem
  | list vs => exact h
  | mapping fields => exact h

/-- A text is a reference only under the key of references. -/
theorem Refs.refsAt (h : Refs P v) (hkey : key ≠ "$ref") : RefsAt P key v := by
  cases v with
  | scalar s => cases s <;> simp [RefsAt, refTextsAt, hkey]
  | list vs => exact h
  | mapping fields => exact h

theorem RefsIn.mapping (h : RefsIn P t) : RefsAt P key (.mapping t) := h

theorem refsAt_list {vs : List Value} (h : ∀ v ∈ vs, Refs P v) : RefsAt P key (.list vs) :=
  refs_list.mpr h

theorem refsAt_string (hkey : key ≠ "$ref") (s : String) : RefsAt P key (.string s) :=
  Refs.refsAt (fun _ hmem => nomatch hmem) hkey

theorem refsAt_bool (b : Bool) : RefsAt P key (.bool b) := fun _ hmem => nomatch hmem

/-- What stands under a key of some fields, and the rest of them. -/
theorem refsIn_cons : RefsIn P ((key, v) :: t) ↔ RefsAt P key v ∧ RefsIn P t :=
  List.forall_mem_append

theorem RefsIn.subset (h : RefsIn P u) (hsub : t ⊆ u) : RefsIn P t :=
  refsIn_iff.mpr fun e he => refsIn_iff.mp h e (hsub he)

theorem RefsIn.nil : RefsIn P [] := fun _ hmem => nomatch hmem

theorem RefsIn.cons (key : String) (hv : RefsAt P key v) (ht : RefsIn P t) :
    RefsIn P ((key, v) :: t) :=
  refsIn_cons.mpr ⟨hv, ht⟩

theorem refsIn_field (key : String) (hv : RefsAt P key v) : RefsIn P [(key, v)] :=
  .cons key hv .nil

theorem RefsIn.append (ht : RefsIn P t) (hu : RefsIn P u) : RefsIn P (t ++ u) := by
  rw [refsIn_iff] at ht hu ⊢
  exact List.forall_mem_append.mpr ⟨ht, hu⟩

/-- Fields that may be left out. -/
theorem RefsIn.unless {c : Prop} [Decidable c] (ht : RefsIn P t) :
    RefsIn P (if c then [] else t) := by
  split
  · exact .nil
  · exact ht

theorem RefsIn.set (ht : RefsIn P t) (hv : RefsAt P key v) : RefsIn P (Fields.set t key v) := by
  rw [refsIn_iff] at ht ⊢
  intro e he
  rcases Fields.mem_set he with rfl | hmem
  · exact hv
  · exact ht e hmem

theorem RefsIn.setIfSome {value? : Option Value} (ht : RefsIn P t) (key : String)
    (hv : ∀ v, value? = some v → RefsAt P key v) : RefsIn P (Fields.setIfSome t key value?) := by
  cases value? with
  | none => exact ht
  | some v => exact ht.set (hv v rfl)

theorem RefsIn.update (ht : RefsIn P t) (hu : RefsIn P u) : RefsIn P (Fields.update t u) := by
  rw [refsIn_iff] at ht hu ⊢
  intro e he
  exact (Fields.mem_update he).elim (ht e) (hu e)

theorem RefsIn.erase (ht : RefsIn P t) : RefsIn P (Fields.erase t key) :=
  ht.subset fun _ he => (List.mem_filter.mp he).1

theorem RefsIn.ofEntries (ht : RefsIn P t) : RefsIn P (Fields.ofEntries t) :=
  ht.subset fun _ he => Fields.mem_ofEntries he

theorem RefsIn.select (ht : RefsIn P t) (names : List String) :
    RefsIn P (Fields.select t names) := by
  refine ht.subset fun e he => ?_
  obtain ⟨name, -, hname⟩ := List.mem_filterMap.mp he
  obtain ⟨v, hv, rfl⟩ := Option.map_eq_some_iff.mp hname
  exact Fields.mem_of_get? hv

theorem RefsIn.extensions (ht : RefsIn P t) : RefsIn P (extensions t) :=
  ht.subset fun _ he => (List.mem_filter.mp (Fields.mem_ofEntries he)).1

theorem RefsIn.mapValues {f : Value → Value} (ht : RefsIn P t)
    (hf : ∀ key v, RefsAt P key v → RefsAt P key (f v)) : RefsIn P (Fields.mapValues f t) := by
  rw [refsIn_iff] at ht ⊢
  intro e he
  obtain ⟨d, hd, rfl⟩ := List.mem_map.mp he
  exact hf d.1 d.2 (ht d hd)

theorem RefsIn.get? (ht : RefsIn P t) (hv : Fields.get? t key = some v) : RefsAt P key v :=
  refsIn_iff.mp ht (key, v) (Fields.mem_of_get? hv)

theorem RefsIn.fieldsAt (ht : RefsIn P t) (key : String) : RefsIn P (Fields.fieldsAt t key) := by
  unfold Fields.fieldsAt
  cases hget : Fields.get? t key with
  | none => exact RefsIn.nil
  | some v =>
      cases v with
      | mapping fields => exact ht.get? hget
      | list vs => exact RefsIn.nil
      | scalar s => exact RefsIn.nil

theorem RefsIn.itemsAt (ht : RefsIn P t) (key : String) : ∀ v ∈ Fields.itemsAt t key, Refs P v := by
  unfold Fields.itemsAt
  cases hget : Fields.get? t key with
  | none => exact fun v hv => nomatch hv
  | some v =>
      cases v with
      | list vs => exact refs_list.mp (ht.get? hget).refs
      | mapping fields => exact fun v hv => nomatch hv
      | scalar s => exact fun v hv => nomatch hv

/-- The mappings among some items. -/
theorem refs_mappings {vs : List Value} (h : ∀ v ∈ vs, Refs P v) :
    ∀ v ∈ (mappings vs).map Value.mapping, Refs P v := by
  intro v hv
  obtain ⟨fields, hfields, rfl⟩ := List.mem_map.mp hv
  obtain ⟨w, hw, heq⟩ := List.mem_filterMap.mp hfields
  cases w with
  | mapping found =>
      cases heq
      exact h _ hw
  | list vs => cases heq
  | scalar s => cases heq

/-- Reading fields as a canonical form and writing it out adds no references. -/
theorem refsIn_ofFields (ht : RefsIn P t) : RefsIn P (CanonicalDocument.ofFields t).fields := by
  have hitems : ∀ key k, RefsIn P (CanonicalDocument.itemsField k (mappings (Fields.itemsAt t key))) := by
    intro key k
    exact (refsIn_field k (refsAt_list (refs_mappings (ht.itemsAt key)))).unless
  refine RefsIn.update ?_ ht.extensions
  refine ((((RefsIn.append ?_ (hitems _ _)).append ?_).append (hitems _ _)).append
    (hitems _ _)).append ?_
  · exact .cons "openapi" (refsAt_string (by decide) _) (.cons "info" (ht.fieldsAt "info").mapping
      (refsIn_field "paths" (ht.fieldsAt "paths").mapping))
  · exact (refsIn_field "components" (ht.fieldsAt "components").mapping).unless
  · dsimp only [CanonicalDocument.ofFields]
    split
    · rename_i docs hdocs
      exact refsIn_field "externalDocs" (ht.get? hdocs)
    · exact .nil

end

end ApiClientGen.Canonical
