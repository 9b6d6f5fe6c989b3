/-
Values with texts, and with texts as keys.

A value as it is read becomes one of a document when its keys become texts.  This fails for two
reasons only: a part that lies too deep, and a key that is an integer of too many digits.  In all
other cases the shape and the scalars stay as they were; of the entries of a mapping whose keys
have one text the last one counts, where the first one stands, and so no key comes twice.  Both is
proved in one go over the levels of the value, with the depth of each part counted along.

A value has a text of its own unless it holds such an integer, on whatever level it stands.
-/
import ApiClientGen.Document.Raw
import ApiClientGen.Proofs.Document.Latest
import ApiClientGen.Proofs.Document.Outcomes
import ApiClientGen.Proofs.Document.Tables

namespace ApiClientGen

/-- Entries that are written one after the other leave the last one for each key. -/
theorem Fields.ofEntries_eq_latest {α : Type} (entries : List (String × α)) :
    Fields.ofEntries entries = latest Prod.fst entries := by
  have hset : (fun (acc : Fields α) e => Fields.set acc e.1 e.2) = putBy Prod.fst := by
    funext acc e
    induction acc with
    | nil => rfl
    | cons first rest ih =>
        rw [Fields.set, putBy, ih]
        split
        · rename_i hkey
          rw [hkey]
        · rfl
  rw [Fields.ofEntries, Fields.update, hset, foldl_putBy]

end ApiClientGen

namespace ApiClientGen.Document

open ApiClientGen.Number

/-! ### What can be wrong with a value -/

/-- A key that has no text. -/
def Scalar.IsLong : Scalar → Prop
  | .int i => exceedsDigits i = true
  | _ => False

/-- A part of a value, with the levels that it lies below it. -/
inductive RawValue.PartAt : RawValue → Nat → RawValue → Prop where
  | self (v : RawValue) : PartAt v 0 v
  | item {items : List RawValue} {v w : RawValue} {k : Nat} (hv : v ∈ items) (h : PartAt v k w) :
      PartAt (.list items) (k + 1) w
  | entry {entries : List (Scalar × RawValue)} {e : Scalar × RawValue} {w : RawValue} {k : Nat}
      (he : e ∈ entries) (h : PartAt e.2 k w) : PartAt (.mapping entries) (k + 1) w

/-- A mapping among the parts of a value has a key without a text. -/
def RawValue.HasLongKey (v : RawValue) : Prop :=
  ∃ k entries, v.PartAt k (.mapping entries) ∧ ∃ e ∈ entries, e.1.IsLong

/-- What is wrong with a value that lies some levels below the root. -/
def RawFault.IsAt (depth : Nat) (v : RawValue) : RawFault → Prop
  | tooDeep => ∃ k w, v.PartAt k w ∧ depthLimit < depth + k
  | longKey => v.HasLongKey

theorem ends_keyText (key : Scalar) :
    Ends (fun text => text = key.text ∧ ¬ key.IsLong) (fun fault => fault = .longKey ∧ key.IsLong)
      key.keyText := by
  cases key with
  | int i =>
      have hlong : (Scalar.int i).IsLong ↔ exceedsDigits i = true := Iff.rfl
      cases h : exceedsDigits i with
      | true =>
          rw [Scalar.keyText, if_pos h]
          exact And.intro rfl (hlong.mpr h)
      | false =>
          rw [Scalar.keyText, if_neg (by rw [h]; exact Bool.false_ne_true)]
          exact And.intro rfl (by rw [hlong, h]; exact Bool.false_ne_true)
  | _ => exact ⟨rfl, id⟩

namespace RawFault

variable {fault : RawFault} {depth : Nat}

theorem IsAt.of_item {items : List RawValue} {v : RawValue} (hv : v ∈ items)
    (h : fault.IsAt (depth + 1) v) : fault.IsAt depth (.list items) := by
  cases fault with
  | tooDeep =>
      obtain ⟨k, w, hpart, hdeep⟩ := h
      exact ⟨k + 1, w, .item hv hpart, by omega⟩
  | longKey =>
      obtain ⟨k, entries, hpart, hlong⟩ := h
      exact ⟨k + 1, entries, .item hv hpart, hlong⟩

theorem IsAt.of_entry {entries : List (Scalar × RawValue)} {e : Scalar × RawValue} (he : e ∈ entries)
    (h : (fault = .longKey ∧ e.1.IsLong) ∨ fault.IsAt (depth + 1) e.2) :
    fault.IsAt depth (.mapping entries) := by
  rcases h with ⟨rfl, hlong⟩ | h
  · exact ⟨0, entries, .self _, e, he, hlong⟩
  · cases fault with
    | tooDeep =>
        obtain ⟨k, w, hpart, hdeep⟩ := h
        exact ⟨k + 1, w, .entry he hpart, by omega⟩
    | longKey =>
        obtain ⟨k, entries, hpart, hlong⟩ := h
        exact ⟨k + 1, entries, .entry he hpart, hlong⟩

theorem not_isAt_scalar (hdepth : ¬ depthLimit < depth) (s : Scalar) :
    ¬ fault.IsAt depth (.scalar s) := by
  cases fault with
  | tooDeep =>
      rintro ⟨k, w, hpart, hdeep⟩
      cases hpart
      exact hdepth hdeep
  | longKey =>
      rintro ⟨k, entries, hpart, -⟩
      cases hpart

theorem not_isAt_list (hdepth : ¬ depthLimit < depth) {items : List RawValue}
    (h : ∀ v ∈ items, ∀ fault : RawFault, ¬ fault.IsAt (depth + 1) v) :
    ¬ fault.IsAt depth (.list items) := by
  cases fault with
  | tooDeep =>
      rintro ⟨k, w, hpart, hdeep⟩
      cases hpart with
      | self => exact hdepth hdeep
      | item hv hpart => exact h _ hv .tooDeep ⟨_, _, hpart, by omega⟩
  | longKey =>
      rintro ⟨k, entries, hpart, hlong⟩
      cases hpart with
      | item hv hpart => exact h _ hv .longKey ⟨_, _, hpart, hlong⟩

theorem not_isAt_mapping (hdepth : ¬ depthLimit < depth) {entries : List (Scalar × RawValue)}
    (h : ∀ e ∈ entries, ¬ e.1.IsLong ∧ ∀ fault : RawFault, ¬ fault.IsAt (depth + 1) e.2) :
    ¬ fault.IsAt depth (.mapping entries) := by
  cases fault with
  | tooDeep =>
      rintro ⟨k, w, hpart, hdeep⟩
      cases hpart with
      | self => exact hdepth hdeep
      | entry he hpart => exact (h _ he).2 .tooDeep ⟨_, _, hpart, by omega⟩
  | longKey =>
      rintro ⟨k, entries, hpart, e, he, hlong⟩
      cases hpart with
      | self => exact (h e he).1 hlong
      | entry he' hpart => exact (h _ he').2 .longKey ⟨_, _, hpart, e, he, hlong⟩

end RawFault

/-! ### What a value becomes -/

/--
**A value with texts as keys says what was read**: it has the shape and the scalars of that, and of
the entries whose keys have one text it has the last one, where the first one stands.
-/
inductive Restates : RawValue → Value → Prop where
  | scalar (s : Scalar) : Restates (.scalar s) (.scalar s)
  | list {items : List RawValue} {vs : List Value} (h : List.Forall₂ Restates items vs) :
      Restates (.list items) (.list vs)
  | mapping {entries : List (Scalar × RawValue)} {fields : Fields Value}
      (keys : Fields.keys fields = (entries.map fun e => e.1.text).eraseDups)
      (h : List.Forall₂ (fun e f => Restates e.2 f.2) (latest (fun e => e.1.text) entries) fields) :
      Restates (.mapping entries) (.mapping fields)

/-- Entries that are written one after the other leave the last one for each text of a key. -/
theorem Restates.of_entries {entries : List (Scalar × RawValue)} {fields : Fields Value}
    (h : List.Forall₂ (fun e f => e.1.text = f.1 ∧ Restates e.2 f.2) entries fields) :
    Restates (.mapping entries) (.mapping (Fields.ofEntries fields)) := by
  have hlatest : List.Forall₂ (fun e f => e.1.text = f.1 ∧ Restates e.2 f.2)
      (latest (fun e => e.1.text) entries) (Fields.ofEntries fields) := by
    rw [Fields.ofEntries_eq_latest]
    exact forall₂_latest (fun e f hef => hef.1) h
  refine .mapping ?_ (hlatest.imp fun e f hef => hef.2)
  have hkeys : (latest (fun e => e.1.text) entries).map (fun e => e.1.text)
      = (Fields.ofEntries fields).map Prod.fst :=
    List.forall₂_eq_eq_eq ▸ List.forall₂_map_left_iff.mpr
      (List.forall₂_map_right_iff.mpr (hlatest.imp fun e f hef => hef.1))
  rw [Fields.keys, ← hkeys, map_latest]

/-- Fields whose values stay as they are when they are read again stay all together. -/
theorem plainEntries_rawEntries {depth : Nat} {fields : List (String × Value)}
    (h : ∀ f ∈ fields, f.2.raw.plain depth = .ok f.2) :
    plainEntries depth (rawEntries fields) = .ok fields := by
  induction fields with
  | nil => rfl
  | cons f rest ih =>
      obtain ⟨hfirst, hrest⟩ := List.forall_mem_cons.mp h
      rw [rawEntries, plainEntries, hfirst, ih hrest]
      rfl

mutual

/-- What becomes of a value that lies some levels below the root. -/
theorem ends_plain : (v : RawValue) → (depth : Nat) →
    Ends (fun r => (Restates v r ∧ r.raw.plain depth = .ok r) ∧ ∀ fault : RawFault, ¬ fault.IsAt depth v)
      (fun fault => fault.IsAt depth v) (v.plain depth)
  | .scalar s, depth => by
      rw [RawValue.plain]
      split
      · rename_i hdeep
        exact ⟨0, _, .self _, hdeep⟩
      · rename_i hdepth
        refine ⟨⟨.scalar s, ?_⟩, fun fault => RawFault.not_isAt_scalar hdepth s⟩
        rw [Value.raw, RawValue.plain, if_neg hdepth]
  | .list items, depth => by
      rw [RawValue.plain]
      split
      · rename_i hdeep
        exact ⟨0, _, .self _, hdeep⟩
      · rename_i hdepth
        refine ((ends_plainItems items (depth + 1)).mono (fun _ h => h)
          fun fault ⟨v, hv, h⟩ => h.of_item hv).bind fun vs ⟨⟨hvs, hagain⟩, hnone⟩ => ?_
        refine ⟨⟨.list hvs, ?_⟩, fun fault => RawFault.not_isAt_list hdepth hnone⟩
        rw [Value.raw, RawValue.plain, if_neg hdepth, hagain]
        rfl
  | .mapping entries, depth => by
      rw [RawValue.plain]
      split
      · rename_i hdeep
        exact ⟨0, _, .self _, hdeep⟩
      · rename_i hdepth
        refine ((ends_plainEntries entries (depth + 1)).mono (fun _ h => h)
          fun fault ⟨e, he, h⟩ => RawFault.IsAt.of_entry he h).bind
            fun fields ⟨⟨hfields, hagain⟩, hnone⟩ => ?_
        refine ⟨⟨.of_entries hfields, ?_⟩, fun fault => RawFault.not_isAt_mapping hdepth hnone⟩
        · rw [Value.raw, RawValue.plain, if_neg hdepth,
            plainEntries_rawEntries fun f hf => hagain f (Fields.mem_ofEntries hf)]
          exact congrArg (fun t => Except.ok (Value.mapping t))
            (Fields.ofEntries_eq_self (Fields.nodup_keys_ofEntries fields))

theorem ends_plainItems : (items : List RawValue) → (depth : Nat) →
    Ends (fun vs => (List.Forall₂ Restates items vs ∧ plainItems depth (rawItems vs) = .ok vs)
        ∧ ∀ v ∈ items, ∀ fault : RawFault, ¬ fault.IsAt depth v)
      (fun fault => ∃ v ∈ items, fault.IsAt depth v) (plainItems depth items)
  | [], _ => ⟨⟨.nil, rfl⟩, nofun⟩
  | v :: rest, depth => by
      rw [plainItems]
      refine ((ends_plain v depth).mono (fun _ h => h)
        fun fault h => ⟨v, by simp, h⟩).bind fun w ⟨⟨hw, hagain⟩, hnone⟩ => ?_
      refine ((ends_plainItems rest depth).mono (fun _ h => h)
        fun fault ⟨u, hu, h⟩ => ⟨u, by simp [hu], h⟩).bind fun ws ⟨⟨hws, hrest⟩, hnones⟩ => ?_
      refine ⟨⟨.cons hw hws, ?_⟩, List.forall_mem_cons.mpr ⟨hnone, hnones⟩⟩
      rw [rawItems, plainItems, hagain, hrest]
      rfl

theorem ends_plainEntries : (entries : List (Scalar × RawValue)) → (depth : Nat) →
    Ends (fun fields => (List.Forall₂ (fun e f => e.1.text = f.1 ∧ Restates e.2 f.2) entries fields
          ∧ ∀ f ∈ fields, f.2.raw.plain depth = .ok f.2)
        ∧ ∀ e ∈ entries, ¬ e.1.IsLong ∧ ∀ fault : RawFault, ¬ fault.IsAt depth e.2)
      (fun fault => ∃ e ∈ entries, (fault = .longKey ∧ e.1.IsLong) ∨ fault.IsAt depth e.2)
      (plainEntries depth entries)
  | [], _ => ⟨⟨.nil, nofun⟩, nofun⟩
  | (key, v) :: rest, depth => by
      rw [plainEntries]
      refine ((ends_keyText key).mono (fun _ h => h)
        fun fault h => ⟨(key, v), by simp, .inl h⟩).bind fun text ⟨htext, hshort⟩ => ?_
      refine ((ends_plain v depth).mono (fun _ h => h)
        fun fault h => ⟨(key, v), by simp, .inr h⟩).bind fun w ⟨⟨hw, hagain⟩, hnone⟩ => ?_
      refine ((ends_plainEntries rest depth).mono (fun _ h => h)
        fun fault ⟨e, he, h⟩ => ⟨e, by simp [he], h⟩).bind fun fields ⟨⟨hfields, hrest⟩, hnones⟩ => ?_
      exact ⟨⟨.cons ⟨htext.symm, hw⟩ hfields, List.forall_mem_cons.mpr ⟨hagain, hrest⟩⟩,
        List.forall_mem_cons.mpr ⟨⟨hshort, hnone⟩, hnones⟩⟩

end

/-- A value is refused for the two reasons, and for no other. -/
theorem exists_fault_iff (v : RawValue) :
    (∃ fault, v.plain 0 = .error fault)
      ↔ (∃ k w, v.PartAt k w ∧ depthLimit < k) ∨ v.HasLongKey := by
  have hends := ends_plain v 0
  constructor
  · rintro ⟨fault, hfault⟩
    have hat := hends.of_error hfault
    cases fault with
    | tooDeep =>
        obtain ⟨k, w, hpart, hdeep⟩ := hat
        exact .inl ⟨k, w, hpart, by rwa [Nat.zero_add] at hdeep⟩
    | longKey => exact .inr hat
  · intro h
    cases hplain : v.plain 0 with
    | error fault => exact ⟨fault, rfl⟩
    | ok r =>
        have hnone := (hends.of_ok hplain).2
        rcases h with ⟨k, w, hpart, hdeep⟩ | hlong
        · exact absurd ⟨k, w, hpart, by rwa [Nat.zero_add]⟩ (hnone .tooDeep)
        · exact absurd hlong (hnone .longKey)

/-! ### Values that are shown -/

/-- A value holds a scalar that satisfies `P`. -/
inductive Holds (P : Scalar → Prop) : Value → Prop where
  | scalar {s : Scalar} (h : P s) : Holds P (.scalar s)
  | list {items : List Value} {v : Value} (hv : v ∈ items) (h : Holds P v) : Holds P (.list items)
  | mapping {fields : List (String × Value)} {e : String × Value} (he : e ∈ fields)
      (h : Holds P e.2) : Holds P (.mapping fields)

section

variable {P : Scalar → Prop}

theorem holds_scalar {s : Scalar} : Holds P (.scalar s) ↔ P s :=
  ⟨fun h => by cases h; assumption, .scalar⟩

theorem holds_list {items : List Value} : Holds P (.list items) ↔ ∃ v ∈ items, Holds P v := by
  constructor
  · intro h
    cases h with
    | list hv h => exact ⟨_, hv, h⟩
  · rintro ⟨v, hv, h⟩
    exact .list hv h

theorem holds_mapping {fields : List (String × Value)} :
    Holds P (.mapping fields) ↔ ∃ e ∈ fields, Holds P e.2 := by
  constructor
  · intro h
    cases h with
    | mapping he h => exact ⟨_, he, h⟩
  · rintro ⟨e, he, h⟩
    exact .mapping he h

end

theorem isLongInteger_iff {s : Scalar} : s.isLongInteger = true ↔ s.IsLong := by
  cases s with
  | int i => exact Iff.rfl
  | _ => exact ⟨Bool.false_ne_true, False.elim⟩

mutual

theorem hasLongInteger_iff : (v : Value) → (v.hasLongInteger = true ↔ Holds Scalar.IsLong v)
  | .scalar s => by rw [Value.hasLongInteger, isLongInteger_iff, holds_scalar]
  | .list items => by rw [Value.hasLongInteger, itemsHaveLongInteger_iff items, holds_list]
  | .mapping fields => by rw [Value.hasLongInteger, fieldsHaveLongInteger_iff fields, holds_mapping]

theorem itemsHaveLongInteger_iff : (items : List Value) →
    (itemsHaveLongInteger items = true ↔ ∃ v ∈ items, Holds Scalar.IsLong v)
  | [] => by simp [itemsHaveLongInteger]
  | v :: rest => by
      rw [itemsHaveLongInteger, Bool.or_eq_true, hasLongInteger_iff v, itemsHaveLongInteger_iff rest,
        List.exists_mem_cons_iff]

theorem fieldsHaveLongInteger_iff : (fields : List (String × Value)) →
    (fieldsHaveLongInteger fields = true ↔ ∃ e ∈ fields, Holds Scalar.IsLong e.2)
  | [] => by simp [fieldsHaveLongInteger]
  | (k, v) :: rest => by
      rw [fieldsHaveLongInteger, Bool.or_eq_true, hasLongInteger_iff v, fieldsHaveLongInteger_iff rest,
        List.exists_mem_cons_iff]

end

/-- **A value has a text** if and only if it holds no integer of too many digits. -/
theorem shown_ends (v : Value) :
    Ends (fun text => text = v.text ∧ ¬ Holds Scalar.IsLong v)
      (fun fault => fault = .longInteger ∧ Holds Scalar.IsLong v) v.shown := by
  unfold Value.shown
  split
  · rename_i h
    exact ⟨rfl, (hasLongInteger_iff v).mp h⟩
  · rename_i h
    exact ⟨rfl, fun hlong => h ((hasLongInteger_iff v).mpr hlong)⟩

end ApiClientGen.Document
