/-
Things that replace earlier ones.

Things that come one after the other, and of which each takes the place of the one that has its
key, leave one thing for each key.  It stands where the key came up first, and it is the thing
that came last.
-/
import Mathlib.Data.List.Induction
import Mathlib.Data.List.Forall2
import Mathlib.Data.List.Nodup

namespace ApiClientGen

variable {α β κ : Type} [DecidableEq κ] (key : α → κ)

/-- Puts a thing in the place of the one that has its key, or else behind all others. -/
def putBy (things : List α) (thing : α) : List α :=
  match things with
  | [] => [thing]
  | first :: rest => if key first = key thing then thing :: rest else first :: putBy rest thing

/-- The last thing that has a key. -/
def lastWith (things : List α) (k : κ) : Option α := (things.filter fun a => key a = k).getLast?

/-- **The last thing for each key**, in the order in which the keys come up first. -/
def latest (things : List α) : List α := (things.map key).eraseDups.filterMap (lastWith key things)

/-! ### One thing more -/

variable {key} {things : List α} {thing : α}

theorem lastWith_append_self : lastWith key (things ++ [thing]) (key thing) = some thing := by
  simp [lastWith]

theorem lastWith_append_of_ne {k : κ} (h : key thing ≠ k) :
    lastWith key (things ++ [thing]) k = lastWith key things k := by
  simp [lastWith, h]

theorem key_of_lastWith {k : κ} {a : α} (h : lastWith key things k = some a) : key a = k :=
  of_decide_eq_true (List.mem_filter.mp (List.mem_of_getLast? h)).2

theorem isSome_lastWith {k : κ} (h : k ∈ things.map key) : (lastWith key things k).isSome = true := by
  obtain ⟨a, ha, hkey⟩ := List.mem_map.mp h
  have hne : things.filter (fun a => key a = k) ≠ [] :=
    List.ne_nil_of_mem (List.mem_filter.mpr ⟨ha, decide_eq_true hkey⟩)
  rwa [lastWith, Option.isSome_iff_ne_none, Ne, List.getLast?_eq_none_iff]

theorem putBy_of_notMem (h : key thing ∉ things.map key) :
    putBy key things thing = things ++ [thing] := by
  induction things with
  | nil => rfl
  | cons first rest ih =>
      simp only [List.map_cons, List.mem_cons, not_or] at h
      rw [putBy, if_neg (Ne.symm h.1), ih h.2, List.cons_append]

/-- Looking up keys, where one key has a new thing and had one before. -/
theorem filterMap_eq_putBy {find find' : κ → Option α} {ks : List κ} (hnodup : ks.Nodup)
    (hkey : ∀ k a, find k = some a → key a = k) (hsome : ∀ k ∈ ks, (find k).isSome = true)
    (hmem : key thing ∈ ks) (hself : find' (key thing) = some thing)
    (hother : ∀ k, key thing ≠ k → find' k = find k) :
    ks.filterMap find' = putBy key (ks.filterMap find) thing := by
  induction ks with
  | nil => cases hmem
  | cons k ks ih =>
      obtain ⟨hfresh, hnodup⟩ := List.nodup_cons.mp hnodup
      obtain ⟨a, ha⟩ := Option.isSome_iff_exists.mp (hsome k (by simp))
      rw [List.filterMap_cons_some ha, putBy, hkey k a ha]
      by_cases hk : k = key thing
      · subst hk
        rw [if_pos rfl, List.filterMap_cons_some hself]
        refine congrArg _ (List.filterMap_congr fun l hl => hother l ?_)
        rintro rfl
        exact hfresh hl
      · have hrest := (List.mem_cons.mp hmem).resolve_left (Ne.symm hk)
        rw [if_neg hk, List.filterMap_cons_some ((hother k (Ne.symm hk)).trans ha),
          ih hnodup (fun l hl => hsome l (List.mem_cons_of_mem _ hl)) hrest]

theorem eraseDups_append_singleton (ks : List κ) (k : κ) :
    (ks ++ [k]).eraseDups = if k ∈ ks then ks.eraseDups else ks.eraseDups ++ [k] := by
  rw [List.eraseDups_append]
  by_cases hk : k ∈ ks <;> simp [List.removeAll, hk, List.eraseDups_cons]

theorem nodup_eraseDups (ks : List κ) : ks.eraseDups.Nodup := by
  induction ks using List.reverseRecOn with
  | nil => simp
  | append_singleton ks k ih =>
      rw [eraseDups_append_singleton]
      split
      · exact ih
      · rename_i hk
        exact List.nodup_append.mpr ⟨ih, by simp, fun a ha b hb heq =>
          hk (List.mem_eraseDups.mp (List.mem_singleton.mp hb ▸ heq ▸ ha))⟩

/-- **Each key has one thing**, in the order in which the keys come up first. -/
theorem map_latest (things : List α) : (latest key things).map key = (things.map key).eraseDups := by
  have hkey : ∀ k ∈ (things.map key).eraseDups, (lastWith key things k).map key = some k := by
    intro k hk
    obtain ⟨a, ha⟩ := Option.isSome_iff_exists.mp (isSome_lastWith (List.mem_eraseDups.mp hk))
    rw [ha, Option.map_some, key_of_lastWith ha]
  rw [latest, List.map_filterMap, List.filterMap_congr hkey, List.filterMap_some]

theorem mem_map_latest {k : κ} : k ∈ (latest key things).map key ↔ k ∈ things.map key := by
  rw [map_latest, List.mem_eraseDups]

theorem nodup_map_latest (key : α → κ) (things : List α) : ((latest key things).map key).Nodup := by
  rw [map_latest]
  exact nodup_eraseDups _

/-- What does not stay has something of its key in its place. -/
theorem exists_mem_latest (h : thing ∈ things) : ∃ a ∈ latest key things, key a = key thing :=
  List.mem_map.mp (mem_map_latest.mpr (List.mem_map_of_mem h))

theorem latest_ne_nil (h : things ≠ []) : latest key things ≠ [] := by
  obtain ⟨a, ha⟩ := List.exists_mem_of_ne_nil _ h
  obtain ⟨b, hb, -⟩ : ∃ b ∈ latest key things, key b = key a := exists_mem_latest ha
  exact List.ne_nil_of_mem hb

/-- A thing that comes last takes the place of the one with its key. -/
theorem latest_append : latest key (things ++ [thing]) = putBy key (latest key things) thing := by
  have hother : ∀ k, key thing ≠ k →
      lastWith key (things ++ [thing]) k = lastWith key things k :=
    fun k => lastWith_append_of_ne
  rw [latest, List.map_append, List.map_singleton, eraseDups_append_singleton]
  split
  · rename_i hmem
    exact filterMap_eq_putBy (nodup_eraseDups _) (fun k a => key_of_lastWith)
      (fun k hk => isSome_lastWith (List.mem_eraseDups.mp hk)) (List.mem_eraseDups.mpr hmem)
      lastWith_append_self hother
  · rename_i hfresh
    rw [putBy_of_notMem (mem_map_latest.not.mpr hfresh), List.filterMap_append,
      List.filterMap_cons_some lastWith_append_self, List.filterMap_nil]
    refine congrArg (· ++ [thing]) (List.filterMap_congr fun k hk => hother k ?_)
    rintro rfl
    exact hfresh (List.mem_eraseDups.mp hk)

/-! ### All things -/

/-- **Things that come one after the other leave the last one for each key.** -/
theorem foldl_putBy (things : List α) : things.foldl (putBy key) [] = latest key things := by
  induction things using List.reverseRecOn with
  | nil => rfl
  | append_singleton things thing ih =>
      rw [List.foldl_append, List.foldl_cons, List.foldl_nil, ih, latest_append]

/-- Things with distinct keys all stay. -/
theorem latest_eq_self (h : (things.map key).Nodup) : latest key things = things := by
  induction things using List.reverseRecOn with
  | nil => rfl
  | append_singleton things thing ih =>
      rw [List.map_append, List.nodup_append] at h
      rw [latest_append, ih h.1, putBy_of_notMem]
      intro hmem
      exact h.2.2 _ hmem _ (by simp) rfl

/-! ### Things that are not replaced, and things that are -/

theorem mem_latest : thing ∈ latest key things ↔ lastWith key things (key thing) = some thing := by
  constructor
  · intro h
    obtain ⟨k, -, hk⟩ := List.mem_filterMap.mp h
    rwa [key_of_lastWith hk]
  · intro h
    refine List.mem_filterMap.mpr ⟨key thing, List.mem_eraseDups.mpr ?_, h⟩
    exact List.mem_map_of_mem (List.mem_filter.mp (List.mem_of_getLast? h)).1

theorem mem_of_mem_latest (h : thing ∈ latest key things) : thing ∈ things :=
  (List.mem_filter.mp (List.mem_of_getLast? (mem_latest.mp h))).1

/-- A thing stays if no later one has its key. -/
theorem mem_latest_of_last {before after : List α} (h : ∀ a ∈ after, key a ≠ key thing) :
    thing ∈ latest key (before ++ thing :: after) := by
  have hnone : after.filter (fun a => key a = key thing) = [] :=
    List.filter_eq_nil_iff.mpr fun a ha => by simpa using h a ha
  rw [mem_latest, lastWith, List.filter_append, List.filter_cons_of_pos (by simp), hnone,
    List.getLast?_concat]

/-- If a later thing has the key, the same things are left as without the earlier one. -/
theorem latest_perm_of_replaced {before after : List α} (h : ∃ a ∈ after, key a = key thing) :
    (latest key (before ++ thing :: after)).Perm (latest key (before ++ after)) := by
  have hlast : ∀ k, lastWith key (before ++ thing :: after) k = lastWith key (before ++ after) k := by
    intro k
    rw [lastWith, lastWith, List.filter_append, List.filter_append]
    by_cases hk : key thing = k
    · obtain ⟨a, ha, hkey⟩ := h
      have hne : after.filter (fun a => key a = k) ≠ [] :=
        List.ne_nil_of_mem (List.mem_filter.mpr ⟨ha, by simp [hkey, hk]⟩)
      rw [List.filter_cons_of_pos (by simp [hk]), List.getLast?_append_of_ne_nil _ hne,
        List.getLast?_append_of_ne_nil _ (List.cons_ne_nil _ _), List.getLast?_cons_of_ne_nil hne]
    · rw [List.filter_cons_of_neg (by simp [hk])]
  refine (List.perm_ext_iff_of_nodup (nodup_map_latest key _).of_map
    (nodup_map_latest key _).of_map).mpr fun a => ?_
  rw [mem_latest, mem_latest, hlast]

theorem filter_putBy (keep : κ → Bool) :
    (putBy key things thing).filter (fun a => keep (key a))
      = if keep (key thing) then putBy key (things.filter fun a => keep (key a)) thing
        else things.filter fun a => keep (key a) := by
  induction things with
  | nil => by_cases h : keep (key thing) <;> simp [putBy, h]
  | cons first rest ih =>
      rw [putBy]
      by_cases hkey : key first = key thing
      · rw [if_pos hkey]
        by_cases h : keep (key thing) <;> simp [putBy, h, hkey]
      · rw [if_neg hkey, List.filter_cons, ih]
        by_cases h : keep (key thing) <;> by_cases hfirst : keep (key first) <;>
          simp [putBy, h, hfirst, hkey]

/-- Leaving out keys first or last is the same. -/
theorem filter_latest (key : α → κ) (keep : κ → Bool) (things : List α) :
    (latest key things).filter (fun a => keep (key a))
      = latest key (things.filter fun a => keep (key a)) := by
  induction things using List.reverseRecOn with
  | nil => rfl
  | append_singleton things thing ih =>
      rw [latest_append, filter_putBy, ih, List.filter_append]
      by_cases h : keep (key thing) <;> simp [h, latest_append]

variable {β : Type} {key' : β → κ} {r : α → β → Prop}

theorem forall₂_putBy (hkey : ∀ a b, r a b → key a = key' b) {as : List α} {bs : List β} {a : α}
    {b : β} (h : List.Forall₂ r as bs) (hab : r a b) :
    List.Forall₂ r (putBy key as a) (putBy key' bs b) := by
  induction h with
  | nil => exact .cons hab .nil
  | @cons first first' as bs hfirst hrest ih =>
      rw [putBy, putBy, hkey _ _ hfirst, hkey _ _ hab]
      split
      · exact .cons hab hrest
      · exact .cons hfirst ih

/-- Related things leave related ones. -/
theorem forall₂_latest (hkey : ∀ a b, r a b → key a = key' b) {as : List α} {bs : List β}
    (h : List.Forall₂ r as bs) : List.Forall₂ r (latest key as) (latest key' bs) := by
  have hfold : ∀ {left : List α} {right : List β}, List.Forall₂ r left right →
      List.Forall₂ r (as.foldl (putBy key) left) (bs.foldl (putBy key') right) := by
    induction h with
    | nil => exact id
    | cons hab _ ih => exact fun hacc => ih (forall₂_putBy hkey hacc hab)
  rw [← foldl_putBy, ← foldl_putBy]
  exact hfold .nil

end ApiClientGen
