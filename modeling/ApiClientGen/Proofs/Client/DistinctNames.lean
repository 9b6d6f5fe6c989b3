/-
Members of a class with distinct names.

Members are named one after the other, and one whose name is taken gets the first number that is
free.  The names that come out are distinct, one for each name asked for and in the same order, and
each is the name asked for or that with a number behind it.  Every name that is asked for comes out
for some member.  A name that does not end in a digit comes out only if it is asked for, and it
comes out with a number as well if and only if it is asked for twice.
-/
import ApiClientGen.Client.Models
import ApiClientGen.Proofs.Extraction.NameSources

namespace ApiClientGen.Client

open ApiClientGen.Extraction ApiClientGen.Naming

variable {names : List String} {base name x : String}

/-! ### Names with a number -/

/-- A name with a low line and a number behind it. -/
def numbered (base : String) (n : Nat) : String := base ++ "_" ++ toString n

/-- A name is the one asked for, or that with a number behind it. -/
def IsNumbered (base name : String) : Prop := name = base ∨ ∃ n, name = numbered base n

/-- The last character of a name is a digit. -/
def EndsInDigit (name : String) : Prop := name.toList.getLast?.any Char.isDigit = true

instance : DecidablePred EndsInDigit := fun _ => inferInstanceAs (Decidable (_ = true))

theorem toList_numbered (base : String) (n : Nat) :
    (numbered base n).toList = base.toList ++ '_' :: Nat.toDigits 10 n := by
  have hnumber : (toString n).toList = Nat.toDigits 10 n := Nat.toList_repr
  rw [numbered, String.toList_append, String.toList_append, hnumber, List.append_assoc]
  rfl

theorem isDigit_of_mem_toDigits {n : Nat} {c : Char} (hc : c ∈ Nat.toDigits 10 n) :
    c.isDigit = true := Nat.isDigit_of_mem_toDigits (by decide) (by decide) hc

theorem endsInDigit_numbered (base : String) (n : Nat) : EndsInDigit (numbered base n) := by
  obtain ⟨last, hlast⟩ : ∃ c, (Nat.toDigits 10 n).getLast? = some c :=
    ⟨_, List.getLast?_eq_some_getLast Nat.toDigits_ne_nil⟩
  rw [EndsInDigit, toList_numbered, List.getLast?_append, List.getLast?_cons, hlast]
  exact isDigit_of_mem_toDigits (List.mem_of_mem_getLast? hlast)

/-- The name in front of the number can be read off. -/
theorem numbered_left_inj {m n : Nat} (h : numbered base m = numbered name n) : base = name := by
  have hline : ∀ n, ∀ c ∈ (Nat.toDigits 10 n).reverse, (c != '_') = true := by
    intro n c hc
    have hdigit := isDigit_of_mem_toDigits (List.mem_reverse.mp hc)
    rw [bne_iff_ne]
    rintro rfl
    exact absurd hdigit (by decide)
  have hread : ∀ base n, (numbered base n).toList.reverse.dropWhile (· != '_')
      = '_' :: base.toList.reverse := by
    intro base n
    rw [toList_numbered, List.reverse_append, List.reverse_cons, List.append_assoc,
      List.dropWhile_append_of_pos (hline n), List.singleton_append]
    exact List.dropWhile_cons_of_neg (by decide)
  have hsame := (hread base m).symm.trans (h ▸ hread name n)
  exact String.toList_inj.mp (List.reverse_injective (List.cons.inj hsame).2)

/-! ### Distinct names -/

/-- The next member gets the first name that the members in front of it leave free. -/
theorem distinctNames_concat (names : List String) (name : String) :
    distinctNames (names ++ [name])
      = distinctNames names ++ [firstFree (distinctNames names) name (numbered name)] := by
  rw [distinctNames, List.foldl_append]
  rfl

/-- The next name is the one asked for if that is free, and has a number behind it otherwise. -/
theorem firstFree_numbered (taken : List String) (name : String) :
    (name ∉ taken ∧ firstFree taken name (numbered name) = name)
      ∨ (name ∈ taken ∧ ∃ n, firstFree taken name (numbered name) = numbered name n) := by
  by_cases htaken : name ∈ taken
  · rcases firstFree_cases taken name (marked_injective name) with ⟨hfree, -⟩ | ⟨n, -, heq⟩
    · exact absurd htaken hfree
    · exact .inr ⟨htaken, n, heq⟩
  · exact .inl ⟨htaken, by simp [firstFree, htaken]⟩

/-- **Distinct names are distinct.** -/
theorem nodup_distinctNames (names : List String) : (distinctNames names).Nodup := by
  induction names using List.reverseRecOn with
  | nil => exact List.nodup_nil
  | append_singleton names name ih =>
      rw [distinctNames_concat]
      have hfree := firstFree_not_mem (distinctNames names) name (marked_injective name)
      exact List.nodup_append.mpr ⟨ih, List.nodup_singleton _, fun a ha b hb => by
        rw [List.mem_singleton.mp hb]
        exact fun heq => hfree (heq ▸ ha)⟩

/-- The members in front are named without a look at those behind. -/
theorem distinctNames_isPrefix (before after : List String) :
    distinctNames before <+: distinctNames (before ++ after) := by
  induction after using List.reverseRecOn with
  | nil => rw [List.append_nil]
  | append_singleton after name ih =>
      rw [← List.append_assoc, distinctNames_concat]
      exact ih.trans (List.prefix_append _ _)

/-- **Each member is named** after what is asked for, in the same order. -/
theorem forall₂_distinctNames (names : List String) :
    List.Forall₂ IsNumbered names (distinctNames names) := by
  induction names using List.reverseRecOn with
  | nil => exact .nil
  | append_singleton names name ih =>
      rw [distinctNames_concat]
      refine List.rel_append ih (.cons ?_ .nil)
      exact (firstFree_numbered (distinctNames names) name).imp And.right And.right

/-- Members are related to what they are made from as each is under its name. -/
theorem forall₂_members {α : Type} {R : α → Code.Parameter → Prop}
    (member : String → α → Code.Parameter) {items : List α}
    (h : List.Forall₂ (fun a name => R a (member name a)) items names) :
    List.Forall₂ R items ((names.zip items).map fun m => member m.1 m.2) := by
  induction h with
  | nil => exact .nil
  | cons hfirst _ ih => exact .cons hfirst ih

/-- Members have the names that they are given. -/
theorem names_members {α : Type} {member : String → α → Code.Parameter} {items : List α}
    (hlength : items.length = names.length) (hname : ∀ name a, (member name a).name = name) :
    ((names.zip items).map fun m => member m.1 m.2).map Code.Parameter.name = names := by
  rw [List.map_map]
  exact (List.map_congr_left fun m _ => hname m.1 m.2).trans (List.map_fst_zip hlength.ge)

/-- Every name that is asked for comes out. -/
theorem subset_distinctNames (names : List String) : names ⊆ distinctNames names := by
  induction names using List.reverseRecOn with
  | nil => exact List.nil_subset _
  | append_singleton names name ih =>
      rw [distinctNames_concat]
      refine List.append_subset.mpr ⟨List.subset_append_of_subset_left _ ih, ?_⟩
      refine List.cons_subset.mpr ⟨?_, List.nil_subset _⟩
      rw [List.mem_append, List.mem_singleton]
      rcases firstFree_numbered (distinctNames names) name with ⟨-, heq⟩ | ⟨htaken, -⟩
      · exact .inr heq.symm
      · exact .inl htaken

/-- What comes out is asked for, or has a number because its name was taken in front of it. -/
theorem mem_distinctNames_cases (h : x ∈ distinctNames names) :
    x ∈ names ∨ ∃ before base after n, names = before ++ base :: after
      ∧ base ∈ distinctNames before ∧ x = numbered base n := by
  induction names using List.reverseRecOn with
  | nil => cases h
  | append_singleton names name ih =>
      rw [distinctNames_concat, List.mem_append, List.mem_singleton] at h
      rcases h with h | h
      · rcases ih h with hmem | ⟨before, base, after, n, hsplit, hbase, heq⟩
        · exact .inl (List.mem_append_left _ hmem)
        · exact .inr ⟨before, base, after ++ [name], n, by rw [hsplit]; simp, hbase, heq⟩
      · rcases firstFree_numbered (distinctNames names) name with ⟨-, heq⟩ | ⟨htaken, n, heq⟩
        · exact .inl (by rw [h, heq]; simp)
        · exact .inr ⟨names, name, [], n, rfl, htaken, h.trans heq⟩

/-- A name that does not end in a digit comes out if and only if it is asked for. -/
theorem mem_distinctNames_iff (hx : ¬ EndsInDigit x) : x ∈ distinctNames names ↔ x ∈ names := by
  refine ⟨fun h => (mem_distinctNames_cases h).resolve_right ?_, fun h => subset_distinctNames names h⟩
  rintro ⟨-, base, -, n, -, -, heq⟩
  rw [heq] at hx
  exact hx (endsInDigit_numbered base n)

/-- **A name comes out with a number** if and only if it is asked for twice. -/
theorem exists_numbered_mem_iff (hbase : ¬ EndsInDigit base)
    (hnames : ∀ n, numbered base n ∉ names) :
    (∃ n, numbered base n ∈ distinctNames names) ↔ 1 < names.count base := by
  constructor
  · rintro ⟨n, hmem⟩
    obtain ⟨before, other, after, m, hsplit, htaken, heq⟩ :=
      (mem_distinctNames_cases hmem).resolve_left (hnames n)
    rw [← numbered_left_inj heq] at hsplit htaken
    have hbefore := List.count_pos_iff.mpr ((mem_distinctNames_iff hbase).mp htaken)
    rw [hsplit, List.count_append, List.count_cons_self]
    omega
  · -- Of the two members only one can have the name itself.
    intro hcount
    obtain ⟨i, j, hij, hfirst, hsecond⟩ :=
      List.duplicate_iff_exists_distinct_get.mp (List.duplicate_iff_two_le_count.mpr hcount)
    obtain ⟨hlength, hnamed⟩ := List.forall₂_iff_get.mp (forall₂_distinctNames names)
    have hi : i.val < (distinctNames names).length := hlength ▸ i.isLt
    have hj : j.val < (distinctNames names).length := hlength ▸ j.isLt
    have hiNamed := hnamed i.val i.isLt hi
    have hjNamed := hnamed j.val j.isLt hj
    rw [← hfirst] at hiNamed
    rw [← hsecond] at hjNamed
    rcases hiNamed with hiBase | ⟨n, hn⟩
    · rcases hjNamed with hjBase | ⟨n, hn⟩
      · have hsame := (nodup_distinctNames names).injective_get (hiBase.trans hjBase.symm)
        exact absurd (Fin.mk.inj hsame) (Nat.ne_of_lt hij)
      · exact ⟨n, hn ▸ List.get_mem _ _⟩
    · exact ⟨n, hn ▸ List.get_mem _ _⟩

end ApiClientGen.Client
