/-
Tables that keep the order of their keys.

A table is the list of its entries.  Writing under a key that is already there keeps
the key's place and replaces the value; a new key goes to the end.  Tables built by
writing therefore have distinct keys, in the order of their first occurrence.
-/

namespace ApiClientGen

/-- A table from texts to values, in the order in which the keys came. -/
abbrev Fields (α : Type) := List (String × α)

namespace Fields

variable {α β : Type}

/-- The keys in order. -/
def keys (t : Fields α) : List String := t.map Prod.fst

/-- The value under a key. -/
def get? (t : Fields α) (key : String) : Option α :=
  match t with
  | [] => none
  | (k, v) :: rest => if k = key then some v else get? rest key

/-- Whether the table has the key. -/
def has (t : Fields α) (key : String) : Bool := (t.get? key).isSome

/-- The table with a value written under a key. -/
def set (t : Fields α) (key : String) (value : α) : Fields α :=
  match t with
  | [] => [(key, value)]
  | (k, v) :: rest => if k = key then (k, value) :: rest else (k, v) :: set rest key value

/-- The table without a key. -/
def erase (t : Fields α) (key : String) : Fields α := t.filter fun e => e.1 ≠ key

/-- The table with all entries of another one written into it, one after the other. -/
def update (t u : Fields α) : Fields α := u.foldl (fun acc e => set acc e.1 e.2) t

/-- The table that arises by writing the entries one after the other. -/
def ofEntries (entries : List (String × α)) : Fields α := update [] entries

/-- The table with every value changed. -/
def mapValues (f : α → β) (t : Fields α) : Fields β := t.map fun e => (e.1, f e.2)

/-- The table with the value under a key changed, if there is one. -/
def modify (t : Fields α) (key : String) (f : α → α) : Fields α :=
  t.map fun e => if e.1 = key then (e.1, f e.2) else e

/-- The table with a value written under a key, if there is a value. -/
def setIfSome (t : Fields α) (key : String) : Option α → Fields α
  | some value => t.set key value
  | none => t

/-- The entries whose keys are among the names given, in the order of the names. -/
def select (t : Fields α) (names : List String) : Fields α :=
  names.filterMap fun n => (t.get? n).map fun v => (n, v)

/-! ### One lemma per operation -/

theorem get?_set_self (t : Fields α) (k : String) (v : α) : (t.set k v).get? k = some v := by
  fun_induction set t k v <;> simp_all [get?]

theorem get?_set_of_ne (t : Fields α) {k l : String} (v : α) (h : k ≠ l) :
    (t.set k v).get? l = t.get? l := by
  fun_induction set t k v with
  | case1 => simp [get?, h]
  | case2 rest => simp [get?, h]
  | case3 k' v' rest _ ih => simp [get?, ih]

/-- A key that is there keeps its place, a new one goes to the end. -/
theorem keys_set (t : Fields α) (k : String) (v : α) :
    (t.set k v).keys = if k ∈ t.keys then t.keys else t.keys ++ [k] := by
  fun_induction set t k v with
  | case1 => simp [keys]
  | case2 rest => simp [keys]
  | case3 k' v' rest hne ih =>
    simp only [keys] at ih ⊢
    have hne' : k ≠ k' := fun h => hne h.symm
    by_cases hk : k ∈ rest.map Prod.fst <;> simp_all

/-- Writing keeps keys distinct. -/
theorem nodup_keys_set {t : Fields α} (h : t.keys.Nodup) (k : String) (v : α) :
    (t.set k v).keys.Nodup := by
  rw [keys_set]
  split
  · exact h
  · next hk =>
    refine List.nodup_append.mpr ⟨h, by simp, fun a ha b hb heq => ?_⟩
    rw [List.mem_singleton] at hb
    exact hk (hb ▸ heq ▸ ha)

theorem nodup_keys_update {t : Fields α} (h : t.keys.Nodup) (u : Fields α) :
    (t.update u).keys.Nodup := by
  induction u generalizing t with
  | nil => exact h
  | cons e u ih => exact ih (nodup_keys_set h e.1 e.2)

/-- Tables built by writing have distinct keys. -/
theorem nodup_keys_ofEntries (entries : List (String × α)) : (ofEntries entries).keys.Nodup :=
  nodup_keys_update (t := []) List.nodup_nil entries

theorem keys_modify (t : Fields α) (k : String) (f : α → α) : (t.modify k f).keys = t.keys := by
  simp only [keys, modify, List.map_map]
  exact List.map_congr_left fun e _ => by simp only [Function.comp]; split <;> rfl

theorem keys_mapValues (f : α → β) (t : Fields α) : (t.mapValues f).keys = t.keys := by
  simp [keys, mapValues, Function.comp_def]

end Fields

end ApiClientGen
