/-
Tables as lists with distinct keys.

A table is a list of entries, and writing keeps its keys distinct.  What is shown here is
the other direction: where the keys written are new and distinct, writing is appending, so
that a table with distinct keys is what arises from its own entries.  Everything that is
read back from a table written before rests on this.
-/
import Mathlib.Data.List.Nodup
import ApiClientGen.Document.Value

namespace ApiClientGen.Fields

variable {α : Type}

/-! ### Looking up -/

theorem get?_append (t u : Fields α) (key : String) :
    get? (t ++ u) key = (get? t key).or (get? u key) := by
  induction t with
  | nil => rfl
  | cons e t ih =>
      obtain ⟨k, v⟩ := e
      by_cases h : k = key
      · simp [get?, h]
      · simp [get?, h, ih]

theorem get?_eq_none {t : Fields α} {key : String} (h : key ∉ keys t) : get? t key = none := by
  induction t with
  | nil => rfl
  | cons e t ih =>
      obtain ⟨k, v⟩ := e
      simp only [keys, List.map_cons, List.mem_cons, not_or] at h
      rw [get?, if_neg (fun hk => h.1 hk.symm)]
      exact ih h.2

theorem mem_of_get? {t : Fields α} {key : String} {v : α} (h : get? t key = some v) :
    (key, v) ∈ t := by
  induction t with
  | nil => simp [get?] at h
  | cons e t ih =>
      obtain ⟨k, w⟩ := e
      by_cases hk : k = key
      · simp only [get?, hk, if_true, Option.some.injEq] at h
        simp [hk, h]
      · simp only [get?, hk, if_false] at h
        exact List.mem_cons_of_mem _ (ih h)

theorem mem_keys_of_mem {t : Fields α} {e : String × α} (h : e ∈ t) : e.1 ∈ keys t :=
  List.mem_map_of_mem h

theorem mem_keys_of_get? {t : Fields α} {key : String} {v : α} (h : get? t key = some v) :
    key ∈ keys t :=
  mem_keys_of_mem (mem_of_get? h)

/-- A table with distinct keys gives back each of its entries. -/
theorem get?_of_mem {t : Fields α} (hnodup : (keys t).Nodup) {key : String} {v : α}
    (h : (key, v) ∈ t) : get? t key = some v := by
  induction t with
  | nil => simp at h
  | cons e t ih =>
      obtain ⟨k, w⟩ := e
      obtain ⟨hfresh, hrest⟩ := List.nodup_cons.mp hnodup
      rcases List.mem_cons.mp h with heq | hmem
      · cases heq
        simp [get?]
      · have hne : k ≠ key := by
          rintro rfl
          have hk : k ∈ keys t := mem_keys_of_mem hmem
          exact hfresh hk
        rw [get?, if_neg hne]
        exact ih hrest hmem

/-- In a table with distinct keys, no key is among those before it. -/
theorem not_mem_keys_before {before after : Fields α} {e : String × α}
    (hnodup : (keys (before ++ e :: after)).Nodup) : e.1 ∉ keys before := by
  intro hmem
  rw [keys, List.map_append] at hnodup
  exact (List.nodup_append.mp hnodup).2.2 e.1 hmem e.1 (by simp) rfl

/-- The keys of a table lead to its values, in order. -/
theorem filterMap_get?_keys {t : Fields α} (hnodup : (keys t).Nodup) :
    (keys t).filterMap (get? t) = t.map Prod.snd := by
  rw [keys, List.filterMap_map, List.filterMap_eq_map_iff_forall_eq_some]
  exact fun e he => get?_of_mem hnodup he

theorem get?_set (t : Fields α) (key k : String) (v : α) :
    get? (set t key v) k = if key = k then some v else get? t k := by
  by_cases h : key = k
  · rw [if_pos h, ← h, get?_set_self]
  · rw [if_neg h, get?_set_of_ne t v h]

theorem get?_erase (t : Fields α) (key k : String) :
    get? (erase t key) k = if key = k then none else get? t k := by
  induction t with
  | nil => simp [erase, get?]
  | cons e t ih =>
      obtain ⟨l, w⟩ := e
      simp only [erase] at ih ⊢
      by_cases hl : l = key
      · subst hl
        by_cases hk : l = k <;> simp_all [get?]
      · by_cases hk : l = k
        · have hne : key ≠ k := fun h => hl (hk.trans h.symm)
          simp_all [get?]
        · simp_all [get?]

theorem exists_get?_of_mem_keys {t : Fields α} {key : String} (h : key ∈ keys t) :
    ∃ v, get? t key = some v := by
  induction t with
  | nil => cases h
  | cons e t ih =>
      obtain ⟨k, v⟩ := e
      by_cases hk : k = key
      · exact ⟨v, by simp [get?, hk]⟩
      · rw [get?, if_neg hk]
        rw [keys, List.map_cons, List.mem_cons] at h
        exact ih (h.resolve_left fun heq => hk heq.symm)

theorem get?_update_of_notMem {t u : Fields α} {key : String} (h : key ∉ keys u) :
    get? (update t u) key = get? t key := by
  induction u generalizing t with
  | nil => rfl
  | cons e u ih =>
      rw [keys, List.map_cons, List.mem_cons, not_or] at h
      calc get? (update t (e :: u)) key = get? (update (set t e.1 e.2) u) key := rfl
        _ = get? (set t e.1 e.2) key := ih h.2
        _ = get? t key := get?_set_of_ne t e.2 fun heq => h.1 heq.symm

/-- A value that is written under a key replaces what was there. -/
theorem get?_update_of_get? {t u : Fields α} (hnodup : (keys u).Nodup) {key : String} {v : α}
    (h : get? u key = some v) : get? (update t u) key = some v := by
  induction u generalizing t with
  | nil => cases h
  | cons e u ih =>
      obtain ⟨hnew, hnodup⟩ := List.nodup_cons.mp hnodup
      rw [get?] at h
      split at h
      · rename_i heq
        obtain rfl := heq
        cases h
        exact (get?_update_of_notMem hnew).trans (get?_set_self t e.1 e.2)
      · exact ih hnodup h

theorem get?_map {β : Type} (f : String → α → β) (t : Fields α) (key : String) :
    get? (t.map fun e => (e.1, f e.1 e.2)) key = (get? t key).map (f key) := by
  induction t with
  | nil => rfl
  | cons e t ih =>
      obtain ⟨k, v⟩ := e
      by_cases h : k = key
      · simp [get?, h]
      · simp [get?, h, ih]

theorem get?_mapValues {β : Type} (f : α → β) (t : Fields α) (key : String) :
    get? (mapValues f t) key = (get? t key).map f :=
  get?_map (fun _ => f) t key

theorem keys_map {β : Type} (f : String → α → β) (t : Fields α) :
    keys (t.map fun e => (e.1, f e.1 e.2)) = keys t := by
  rw [keys, List.map_map]
  rfl

/-- Among the entries that are picked, a key reads as before. -/
theorem get?_select (t : Fields α) (names : List String) (key : String) :
    get? (select t names) key = if key ∈ names then get? t key else none := by
  induction names with
  | nil => rfl
  | cons name names ih =>
      have hcons : select t (name :: names)
          = (((get? t name).map fun v => (name, v)).toList) ++ select t names := by
        rw [select, List.filterMap_cons]
        cases get? t name <;> rfl
      rw [hcons, get?_append, ih]
      by_cases h : name = key
      · subst h
        cases hget : get? t name <;> simp [get?]
      · have hne : get? (((get? t name).map fun v => (name, v)).toList) key = none := by
          cases get? t name <;> simp [get?, h]
        rw [hne, Option.none_or]
        have hkey : key ≠ name := fun heq => h heq.symm
        simp [hkey]

theorem keys_select_sublist (t : Fields α) (names : List String) :
    (keys (select t names)).Sublist names := by
  induction names with
  | nil => exact List.Sublist.refl _
  | cons name names ih =>
      rw [select, List.filterMap_cons]
      cases get? t name with
      | none => exact ih.cons name
      | some v => exact ih.cons_cons name

/-- Writing under a key that is not picked changes nothing in what is. -/
theorem select_set {t : Fields α} {key : String} {names : List String} (h : key ∉ names) (v : α) :
    select (set t key v) names = select t names := by
  refine List.filterMap_congr fun name hname => ?_
  have hne : key ≠ name := by
    rintro rfl
    exact h hname
  rw [get?_set_of_ne t v hne]

/-- An entry that may be left out. -/
theorem keys_unless_sublist (c : Prop) [Decidable c] (key : String) (v : α) :
    (keys (if c then [] else [(key, v)])).Sublist [key] := by
  split
  · exact List.nil_sublist _
  · exact List.Sublist.refl _

theorem keys_append (t u : Fields α) : keys (t ++ u) = keys t ++ keys u := List.map_append

/-- Entries that are made of some of those of a table, under their keys. -/
theorem keys_filterMap_sublist {β γ : Type} (f : String × α → Option γ) (g : γ → β) (t : Fields α) :
    (keys (t.filterMap fun e => (f e).map fun c => (e.1, g c))).Sublist (keys t) := by
  induction t with
  | nil => exact List.Sublist.refl _
  | cons e t ih =>
      rw [List.filterMap_cons]
      cases f e with
      | none => exact ih.cons e.1
      | some c => exact ih.cons_cons e.1

theorem nodup_keys_filter {t : Fields α} (h : (keys t).Nodup) (p : String × α → Bool) :
    (keys (t.filter p)).Nodup :=
  (List.filter_sublist.map Prod.fst).nodup h

theorem nodup_keys_erase {t : Fields α} (h : (keys t).Nodup) (key : String) :
    (keys (erase t key)).Nodup :=
  nodup_keys_filter h _

theorem nodup_keys_setIfSome {t : Fields α} (h : (keys t).Nodup) (key : String) (v : Option α) :
    (keys (setIfSome t key v)).Nodup := by
  cases v with
  | none => exact h
  | some v => exact nodup_keys_set h key v

/-! ### Writing new keys is appending -/

theorem set_eq_append {t : Fields α} {key : String} (h : key ∉ keys t) (v : α) :
    set t key v = t ++ [(key, v)] := by
  induction t with
  | nil => rfl
  | cons e t ih =>
      obtain ⟨k, w⟩ := e
      simp only [keys, List.map_cons, List.mem_cons, not_or] at h
      rw [set, if_neg (fun hk => h.1 hk.symm), ih h.2]
      rfl

theorem update_eq_append {t u : Fields α} (hnodup : (keys u).Nodup)
    (hfresh : ∀ k ∈ keys u, k ∉ keys t) : update t u = t ++ u := by
  induction u generalizing t with
  | nil => simp [update]
  | cons e u ih =>
      obtain ⟨k, v⟩ := e
      obtain ⟨hk, hu⟩ := List.nodup_cons.mp hnodup
      have hkt : k ∉ keys t := hfresh k (by simp [keys])
      have hrest : ∀ l ∈ keys u, l ∉ keys (t ++ [(k, v)]) := by
        intro l hl hmem
        simp only [keys, List.map_append, List.mem_append, List.map_cons, List.map_nil,
          List.mem_singleton] at hmem
        rcases hmem with hlt | hlk
        · exact hfresh l (List.mem_cons_of_mem _ hl) hlt
        · exact hk (hlk ▸ hl)
      calc update t ((k, v) :: u) = update (set t k v) u := rfl
        _ = update (t ++ [(k, v)]) u := by rw [set_eq_append hkt]
        _ = t ++ [(k, v)] ++ u := ih hu hrest
        _ = t ++ (k, v) :: u := by simp

/-- Entries with distinct keys are the table that arises from them. -/
theorem ofEntries_eq_self {entries : List (String × α)} (hnodup : (keys entries).Nodup) :
    ofEntries entries = entries := by
  have h := update_eq_append (t := []) hnodup (by simp [keys])
  simpa [ofEntries] using h

/-! ### What is there after writing -/

theorem mem_keys_set {t : Fields α} {key k : String} {v : α} :
    k ∈ keys (set t key v) ↔ k = key ∨ k ∈ keys t := by
  rw [keys_set]
  by_cases h : key ∈ keys t
  · rw [if_pos h]
    constructor
    · exact Or.inr
    · rintro (rfl | hk)
      · exact h
      · exact hk
  · rw [if_neg h, List.mem_append, List.mem_singleton, or_comm]

theorem mem_keys_update {t u : Fields α} {k : String} :
    k ∈ keys (update t u) ↔ k ∈ keys t ∨ k ∈ keys u := by
  induction u generalizing t with
  | nil => simp [update, keys]
  | cons e u ih =>
      calc k ∈ keys (update t (e :: u))
          ↔ k ∈ keys (set t e.1 e.2) ∨ k ∈ keys u := ih
        _ ↔ (k = e.1 ∨ k ∈ keys t) ∨ k ∈ keys u := by rw [mem_keys_set]
        _ ↔ k ∈ keys t ∨ k ∈ keys (e :: u) := by
            simp only [keys, List.map_cons, List.mem_cons]
            tauto

/-- The keys written are those of the entries. -/
theorem mem_keys_ofEntries {entries : List (String × α)} {k : String} :
    k ∈ keys (ofEntries entries) ↔ k ∈ keys entries := by
  rw [ofEntries, mem_keys_update]
  simp [keys]

theorem mem_set {t : Fields α} {key : String} {v : α} {e : String × α} (h : e ∈ set t key v) :
    e = (key, v) ∨ e ∈ t := by
  fun_induction set t key v with
  | case1 => exact Or.inl (List.mem_singleton.mp h)
  | case2 w rest =>
      rcases List.mem_cons.mp h with heq | hrest
      · exact Or.inl heq
      · exact Or.inr (List.mem_cons_of_mem _ hrest)
  | case3 k w rest hne ih =>
      rcases List.mem_cons.mp h with heq | hrest
      · exact Or.inr (by simp [heq])
      · rcases ih hrest with heq | hmem
        · exact Or.inl heq
        · exact Or.inr (List.mem_cons_of_mem _ hmem)

theorem mem_update {t u : Fields α} {e : String × α} (h : e ∈ update t u) : e ∈ t ∨ e ∈ u := by
  induction u generalizing t with
  | nil => exact Or.inl h
  | cons f u ih =>
      rcases ih (t := set t f.1 f.2) h with hset | hu
      · rcases mem_set hset with rfl | ht
        · exact Or.inr (by simp)
        · exact Or.inl ht
      · exact Or.inr (List.mem_cons_of_mem _ hu)

/-- Writing entries adds no entries but them. -/
theorem mem_ofEntries {entries : List (String × α)} {e : String × α} (h : e ∈ ofEntries entries) :
    e ∈ entries := by
  rcases mem_update h with hnil | hmem
  · simp at hnil
  · exact hmem

end ApiClientGen.Fields

/-! ### Tables of values -/

namespace ApiClientGen.Document.Fields

open ApiClientGen.Fields

variable {t u : Fields Value} {key k : String}

theorem fieldsAt_congr (h : get? t key = get? u key) : fieldsAt t key = fieldsAt u key := by
  rw [fieldsAt, h, fieldsAt]

theorem itemsAt_congr (h : get? t key = get? u key) : itemsAt t key = itemsAt u key := by
  rw [itemsAt, h, itemsAt]

theorem textAt?_congr (h : get? t key = get? u key) : textAt? t key = textAt? u key := by
  rw [textAt?, h, textAt?]

theorem fieldsAt_set_of_ne (h : k ≠ key) (v : Value) :
    fieldsAt (set t k v) key = fieldsAt t key :=
  fieldsAt_congr (get?_set_of_ne t v h)

theorem itemsAt_set_of_ne (h : k ≠ key) (v : Value) : itemsAt (set t k v) key = itemsAt t key :=
  itemsAt_congr (get?_set_of_ne t v h)

theorem textAt?_set_of_ne (h : k ≠ key) (v : Value) : textAt? (set t k v) key = textAt? t key :=
  textAt?_congr (get?_set_of_ne t v h)

theorem fieldsAt_of_get? (h : get? t key = some (.mapping u)) : fieldsAt t key = u := by
  rw [fieldsAt, h]
  rfl

theorem get?_of_mem_itemsAt (h : v ∈ itemsAt t key) :
    ∃ vs, get? t key = some (.list vs) ∧ v ∈ vs := by
  unfold itemsAt at h
  cases hget : get? t key with
  | none => exact absurd (hget ▸ h) List.not_mem_nil
  | some w =>
      rw [hget] at h
      cases w with
      | list vs => exact ⟨vs, rfl, h⟩
      | _ => exact absurd h List.not_mem_nil

theorem itemsAt_of_get? {vs : List Value} (h : get? t key = some (.list vs)) :
    itemsAt t key = vs := by
  rw [itemsAt, h]
  rfl

/-- An entry of a part is there only if the part is. -/
theorem get?_of_mem_fieldsAt {e : String × Value} (h : e ∈ fieldsAt t key) :
    get? t key = some (.mapping (fieldsAt t key)) := by
  unfold fieldsAt at h ⊢
  cases hget : get? t key with
  | none =>
      rw [hget] at h
      cases h
  | some v =>
      rw [hget] at h
      cases v with
      | mapping fields => rfl
      | list vs => cases h
      | scalar s => cases h

theorem get?_of_textAt? {text : String} (h : textAt? t key = some text) :
    get? t key = some (.string text) := by
  obtain ⟨v, hv, htext⟩ := Option.bind_eq_some_iff.mp h
  unfold Value.asText? at htext
  split at htext
  · cases htext
    exact hv
  · cases htext

/-- A table of mappings has no texts. -/
theorem textAt?_of_mappings (h : ∀ e ∈ t, ∃ fields, e.2 = .mapping fields) (key : String) :
    textAt? t key = none := by
  rw [textAt?]
  cases hget : get? t key with
  | none => rfl
  | some v =>
      obtain ⟨fields, hfields⟩ := h _ (mem_of_get? hget)
      dsimp only at hfields
      rw [hfields]
      rfl

end ApiClientGen.Document.Fields
