/-
The order of aliases.

An alias is put behind the one that it refers to, and that one is visited first.  While it is
visited, the aliases on the way to it stand open: they are not placed yet, and each of them leads
to the one that is being visited.  So when an alias is placed, what it refers to has been placed
before, or it stands open and leads back to it.  No order could help then: aliases that lead back
to each other can never all stand behind what they refer to.  An alias is placed when its visit is
over, and only the first visit places it, so that every alias is placed once.
-/
import Mathlib.Logic.Relation
import ApiClientGen.Client.Models
import ApiClientGen.Proofs.Reference.Levels

namespace ApiClientGen.Client

open ApiClientGen.Reference Relation

section

variable (all : List Alias)

/-- The alias that an alias refers to. -/
def referred? (a : Alias) : Option Alias :=
  a.type.modelName?.bind fun name => all.find? fun b => b.name = name

/-- An alias refers to another one. -/
def RefersTo (a b : Alias) : Prop := referred? all a = some b

/-- An alias leads to another one, in any number of steps. -/
def LeadsTo (a b : Alias) : Prop := ReflTransGen (RefersTo all) a b

/-- The alias that an alias refers to is visited first. -/
theorem add_succ (length : Nat) (o : Ordered) (a : Alias) :
    Ordered.add all (length + 1) o a
      = if o.visited.contains a.name then o
        else
          let opened : Ordered := { o with visited := a.name :: o.visited }
          let behind := ((referred? all a).map (Ordered.add all length opened)).getD opened
          { behind with aliases := behind.aliases ++ [a] } := by
  rw [Ordered.add]
  dsimp only
  unfold referred?
  cases a.type.modelName?.bind fun name => all.find? fun b => b.name = name <;> rfl

/-! ### Aliases that are placed, and aliases that stand open -/

/-- **Aliases that are in order**, while others stand open. -/
structure InOrder (opened : List Alias) (o : Ordered) : Prop where
  /-- All of them have been visited, and nothing else has. -/
  visited : ∀ name, name ∈ o.visited ↔ name ∈ (o.aliases ++ opened).map Alias.name
  members : ∀ a ∈ o.aliases ++ opened, a ∈ all
  /-- What an alias refers to stands before it, or leads back to it. -/
  behind : ∀ before a after, o.aliases = before ++ a :: after →
    ∀ b, RefersTo all a b → b ∈ before ∨ LeadsTo all b a

end

variable {all opened : List Alias} {o : Ordered} {a b : Alias}

theorem InOrder.nil : InOrder all [] {} where
  visited name := by simp
  members a ha := nomatch ha
  behind before a after h := by simp at h

/-- An alias that has not been visited is opened. -/
theorem InOrder.opening (h : InOrder all opened o) (ha : a ∈ all) :
    InOrder all (a :: opened) { o with visited := a.name :: o.visited } where
  visited name := by
    have hvisited := h.visited name
    simp only [List.map_append, List.mem_append, List.mem_cons, List.map_cons] at hvisited ⊢
    rw [hvisited]
    exact or_left_comm
  members b hb := by
    simp only [List.mem_append, List.mem_cons] at hb
    rcases hb with hb | rfl | hb
    · exact h.members b (List.mem_append_left _ hb)
    · exact ha
    · exact h.members b (List.mem_append_right _ hb)
  behind := h.behind

/-- The alias that was opened last is placed when what it refers to has been visited. -/
theorem InOrder.placing (hnames : (all.map Alias.name).Nodup) (h : InOrder all (a :: opened) o)
    (hopened : ∀ c ∈ opened, LeadsTo all c a) (hvisited : ∀ b, RefersTo all a b → b.name ∈ o.visited) :
    InOrder all opened { o with aliases := o.aliases ++ [a] } where
  visited name := by
    rw [h.visited name, List.append_assoc, List.singleton_append]
  members b hb := by
    rw [List.append_assoc, List.singleton_append] at hb
    exact h.members b hb
  behind before c after hsplit b hb := by
    rcases List.eq_nil_or_concat after with rfl | ⟨rest, last, rfl⟩
    · obtain ⟨rfl, hlast⟩ := List.append_inj' hsplit rfl
      obtain rfl : a = c := by simpa using hlast
      -- What it refers to is placed, is the alias itself, or stands open.
      obtain ⟨c, hc, hname⟩ := List.mem_map.mp ((h.visited _).mp (hvisited b hb))
      obtain rfl : c = b := by
        have hball : b ∈ all := by
          obtain ⟨name, -, hfind⟩ := Option.bind_eq_some_iff.mp hb
          exact List.mem_of_find?_eq_some hfind
        exact List.inj_on_of_nodup_map hnames (h.members c hc) hball hname
      rcases List.mem_append.mp hc with hplaced | hopen
      · exact Or.inl hplaced
      · rcases List.mem_cons.mp hopen with rfl | hopen
        · exact Or.inr .refl
        · exact Or.inr (hopened c hopen)
    · have hinit : o.aliases = before ++ c :: rest := by
        rw [List.concat_eq_append, ← List.cons_append, ← List.append_assoc] at hsplit
        exact (List.append_inj' hsplit rfl).1
      exact h.behind before c rest hinit b hb

/--
**Visiting an alias keeps the order**: it has been visited then, those that stand open still do,
and what was visited before stays visited.
-/
theorem InOrder.add (hnames : (all.map Alias.name).Nodup) {length : Nat}
    (hlength : remaining (all.map Alias.name) o.visited < length) (h : InOrder all opened o)
    (ha : a ∈ all) (hopened : ∀ c ∈ opened, LeadsTo all c a) :
    InOrder all opened (Ordered.add all length o a)
      ∧ a.name ∈ (Ordered.add all length o a).visited
      ∧ o.visited ⊆ (Ordered.add all length o a).visited := by
  induction length generalizing opened o a with
  | zero => omega
  | succ length ih =>
      rw [add_succ]
      split
      · rename_i hseen
        exact ⟨h, by simpa using hseen, List.Subset.refl _⟩
      · rename_i hnew
        have hopening := h.opening ha
        have hless : remaining (all.map Alias.name) (a.name :: o.visited) < length := by
          have hlt := remaining_cons_lt (List.mem_map_of_mem ha) (by simpa using hnew)
          omega
        have hsub : o.visited ⊆ a.name :: o.visited := List.subset_cons_self _ _
        cases hreferred : referred? all a with
        | none =>
            refine ⟨hopening.placing hnames hopened fun b hb => ?_, by simp, hsub⟩
            rw [RefersTo, hreferred] at hb
            cases hb
        | some b =>
            have hb : b ∈ all := by
              obtain ⟨name, -, hfind⟩ := Option.bind_eq_some_iff.mp hreferred
              exact List.mem_of_find?_eq_some hfind
            have hleads : ∀ c ∈ a :: opened, LeadsTo all c b := by
              intro c hc
              rcases List.mem_cons.mp hc with rfl | hc
              · exact .single hreferred
              · exact (hopened c hc).tail hreferred
            obtain ⟨hbehind, hvisited, hmore⟩ := ih hless hopening hb hleads
            refine ⟨hbehind.placing hnames hopened fun c hc => ?_, hmore (by simp),
              List.Subset.trans hsub hmore⟩
            obtain rfl : b = c := by simpa [RefersTo, hreferred] using hc
            exact hvisited

/-- Chains of more steps than there are aliases are long enough. -/
theorem remaining_lt (all : List Alias) (visited : List String) :
    remaining (all.map Alias.name) visited < all.length + 1 := by
  have hle := remaining_le_length (all.map Alias.name) visited
  rw [List.length_map] at hle
  omega

/-- **Visiting one alias after the other keeps the order.** -/
theorem inOrder_foldl (hnames : (all.map Alias.name).Nodup) {rest : List Alias} (hrest : rest ⊆ all)
    (h : InOrder all [] o) :
    InOrder all [] (rest.foldl (fun o a => Ordered.add all (all.length + 1) o a) o) := by
  induction rest generalizing o with
  | nil => exact h
  | cons a rest ih =>
      obtain ⟨ha, hrest⟩ := List.cons_subset.mp hrest
      exact ih hrest (h.add hnames (remaining_lt all _) ha fun c hc => nomatch hc).1

/--
**Every alias stands behind the one that it refers to**, unless that one leads back to it.
-/
theorem mem_before_or_leadsTo (hnames : (all.map Alias.name).Nodup) {before after : List Alias}
    (h : sortedAliases all = before ++ a :: after) (hab : RefersTo all a b) :
    b ∈ before ∨ LeadsTo all b a :=
  (inOrder_foldl hnames (List.Subset.refl all) InOrder.nil).behind before a after h b hab

/-- Nothing but aliases is put in order. -/
theorem mem_of_mem_sortedAliases (hnames : (all.map Alias.name).Nodup)
    (h : a ∈ sortedAliases all) : a ∈ all :=
  (inOrder_foldl hnames (List.Subset.refl all) InOrder.nil).members a (List.mem_append_left _ h)

/-- An alias refers to the alias of the list that has the name of the model in its type. -/
theorem refersTo_iff (hnames : (all.map Alias.name).Nodup) :
    RefersTo all a b ↔ b ∈ all ∧ a.type.modelName? = some b.name := by
  constructor
  · intro h
    obtain ⟨name, hname, hfind⟩ := Option.bind_eq_some_iff.mp h
    have hbname : b.name = name := by simpa using List.find?_some hfind
    exact ⟨List.mem_of_find?_eq_some hfind, hbname ▸ hname⟩
  · rintro ⟨hb, hname⟩
    rw [RefersTo, referred?, hname, Option.bind_some]
    have hfound : (all.find? fun c => c.name = b.name).isSome := by
      rw [List.find?_isSome]
      exact ⟨b, hb, by simp⟩
    obtain ⟨c, hc⟩ := Option.isSome_iff_exists.mp hfound
    have hcname : c.name = b.name := by simpa using List.find?_some hc
    rw [hc, List.inj_on_of_nodup_map hnames (List.mem_of_find?_eq_some hc) hb hcname]

/-! ### Every alias has one place -/

/-- Visiting an alias places aliases that have not been visited before, each of them once. -/
theorem exists_placed (all : List Alias) (length : Nat) (o : Ordered) (a : Alias) :
    ∃ placed, (Ordered.add all length o a).aliases = o.aliases ++ placed
      ∧ (placed.map Alias.name).Nodup ∧ ∀ b ∈ placed, b.name ∉ o.visited := by
  induction length generalizing o a with
  | zero => exact ⟨[], by simp [Ordered.add]⟩
  | succ length ih =>
      rw [add_succ]
      split
      · exact ⟨[], by simp⟩
      · rename_i hnew
        have hnew : a.name ∉ o.visited := by simpa using hnew
        cases referred? all a with
        | none => exact ⟨[a], rfl, by simp, by simpa using hnew⟩
        | some b =>
            obtain ⟨placed, hplaced, hnodup, hfresh⟩ := ih { o with visited := a.name :: o.visited } b
            refine ⟨placed ++ [a], ?_, ?_, fun c hc => ?_⟩
            · show (Ordered.add all length _ b).aliases ++ [a] = o.aliases ++ (placed ++ [a])
              rw [hplaced, List.append_assoc]
            · rw [List.map_append, List.map_singleton, ← List.concat_eq_append,
                List.nodup_concat]
              refine ⟨fun hmem => ?_, hnodup⟩
              obtain ⟨c, hc, hname⟩ := List.mem_map.mp hmem
              exact hfresh c hc (hname ▸ List.mem_cons_self)
            · rcases List.mem_append.mp hc with hc | hc
              · exact fun hvisited => hfresh c hc (List.mem_cons_of_mem _ hvisited)
              · rwa [List.mem_singleton.mp hc]

/-- Visiting one alias after the other places each of them once. -/
theorem placed_foldl (hnames : (all.map Alias.name).Nodup) {rest : List Alias} (hrest : rest ⊆ all)
    (h : InOrder all [] o) (hnodup : (o.aliases.map Alias.name).Nodup) :
    let result := rest.foldl (fun o a => Ordered.add all (all.length + 1) o a) o
    (result.aliases.map Alias.name).Nodup ∧ o.visited ⊆ result.visited
      ∧ ∀ a ∈ rest, a.name ∈ result.visited := by
  induction rest generalizing o with
  | nil => exact ⟨hnodup, List.Subset.refl _, fun a ha => nomatch ha⟩
  | cons a rest ih =>
      obtain ⟨ha, hrest⟩ := List.cons_subset.mp hrest
      obtain ⟨hadded, hvisited, hmore⟩ := h.add hnames (remaining_lt all _) ha fun c hc => nomatch hc
      obtain ⟨placed, hplaced, hplacedNodup, hfresh⟩ := exists_placed all (all.length + 1) o a
      have hfirst : ((Ordered.add all (all.length + 1) o a).aliases.map Alias.name).Nodup := by
        rw [hplaced, List.map_append]
        refine List.nodup_append.mpr ⟨hnodup, hplacedNodup, ?_⟩
        rintro name hold _ hnew rfl
        obtain ⟨c, hc, rfl⟩ := List.mem_map.mp hnew
        refine hfresh c hc ((h.visited _).mpr ?_)
        rwa [List.append_nil]
      obtain ⟨hresult, hsub, hall⟩ := ih hrest hadded hfirst
      refine ⟨hresult, List.Subset.trans hmore hsub, fun b hb => ?_⟩
      rcases List.mem_cons.mp hb with rfl | hb
      · exact hsub hvisited
      · exact hall b hb

/-- **Aliases in order are the same aliases**, each of them once. -/
theorem perm_sortedAliases (hnames : (all.map Alias.name).Nodup) :
    (sortedAliases all).Perm all := by
  obtain ⟨hnodup, -, hall⟩ := placed_foldl hnames (List.Subset.refl all) InOrder.nil List.nodup_nil
  have horder := inOrder_foldl hnames (List.Subset.refl all) InOrder.nil
  refine (List.perm_ext_iff_of_nodup (List.Nodup.of_map _ hnodup) (List.Nodup.of_map _ hnames)).mpr
    fun a => ⟨mem_of_mem_sortedAliases hnames, fun ha => ?_⟩
  -- The name of the alias has been visited, so that an alias with this name is placed.
  obtain ⟨b, hb, hname⟩ := List.mem_map.mp ((horder.visited _).mp (hall a ha))
  obtain rfl := List.inj_on_of_nodup_map hnames (horder.members b hb) ha hname
  rwa [List.append_nil] at hb

/-- Where no alias leads back to itself, all that an alias leads to stands before it. -/
theorem mem_before_of_acyclic (hnames : (all.map Alias.name).Nodup)
    (hacyclic : ∀ a ∈ all, ¬ TransGen (RefersTo all) a a) {before after : List Alias}
    (h : sortedAliases all = before ++ a :: after) (hab : TransGen (RefersTo all) a b) :
    b ∈ before := by
  have hstep : ∀ {before c after d}, sortedAliases all = before ++ c :: after →
      RefersTo all c d → d ∈ before := by
    intro before c after d hsplit hcd
    refine (mem_before_or_leadsTo hnames hsplit hcd).resolve_right fun hleads => ?_
    have hc : c ∈ all := mem_of_mem_sortedAliases hnames (by rw [hsplit]; simp)
    exact hacyclic c hc (TransGen.head' hcd hleads)
  induction hab with
  | single hab => exact hstep h hab
  | tail _ hcd ih =>
      obtain ⟨first, rest, rfl⟩ := List.append_of_mem ih
      rw [List.append_assoc, List.cons_append] at h
      exact List.mem_append_left _ (hstep h hcd)

/--
**Aliases are put in order**: each of them once, and behind all that it refers to, but for an
alias that leads back to it; so behind all that it leads to where no alias leads back to itself.
-/
theorem sortedAliases_inOrder (hnames : (all.map Alias.name).Nodup) :
    (sortedAliases all).Perm all
      ∧ (∀ before a after, sortedAliases all = before ++ a :: after →
          ∀ b, RefersTo all a b → b ∈ before ∨ LeadsTo all b a)
      ∧ ((∀ a ∈ all, ¬ TransGen (RefersTo all) a a) →
          ∀ before a after, sortedAliases all = before ++ a :: after →
            ∀ b, TransGen (RefersTo all) a b → b ∈ before) :=
  ⟨perm_sortedAliases hnames, fun _ _ _ h _ hab => mem_before_or_leadsTo hnames h hab,
    fun hacyclic _ _ _ h _ hab => mem_before_of_acyclic hnames hacyclic h hab⟩

/-- Tags, and pets that are animals, which are pets again. -/
def petAliases : List Alias := [
  ⟨"Tags", .arrayOf (.reference "Tag") false, none⟩,
  ⟨"Pets", .arrayOf (.reference "Animals") false, none⟩,
  ⟨"Animals", .mapOf (.reference "Pets") false, none⟩,
  ⟨"Tag", .primitive .string, none⟩]

theorem sortedAliases_petAliases :
    (petAliases.map Alias.name).Nodup
      ∧ (sortedAliases petAliases).map Alias.name = ["Tag", "Tags", "Animals", "Pets"]
      ∧ (sortedAliases petAliases).Perm petAliases
      ∧ ∀ before a after, sortedAliases petAliases = before ++ a :: after →
          ∀ b, RefersTo petAliases a b → b ∈ before ∨ LeadsTo petAliases b a := by
  have hnames : (petAliases.map Alias.name).Nodup := by decide
  obtain ⟨hperm, hbehind, -⟩ := sortedAliases_inOrder hnames
  exact ⟨hnames, by decide +kernel, hperm, hbehind⟩

end ApiClientGen.Client
