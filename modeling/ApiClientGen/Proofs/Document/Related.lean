/-
Things that are related.

Two tables are related if they have the same keys in the same order and related values under
them.  Two questions agree if both fail in the same way, or both have answers and the answers
are related.  What is done to both sides of a relation keeps it, and that is stated once for
each way in which tables are built and questions are put together.
-/
import Mathlib.Data.List.Forall2
import ApiClientGen.Proofs.Document.Answers
import ApiClientGen.Proofs.Document.Tables

namespace ApiClientGen

variable {ε α β γ δ : Type}

/-! ### Questions -/

/-- **Two questions that agree**: they fail in the same way, or their answers are related. -/
inductive Agree (Q : α → β → Prop) : Except ε α → Except ε β → Prop where
  | error (e : ε) : Agree Q (.error e) (.error e)
  | ok {a : α} {b : β} (h : Q a b) : Agree Q (.ok a) (.ok b)

namespace Agree

variable {Q : α → β → Prop} {Q' : γ → δ → Prop} {x : Except ε α} {y : Except ε β}

theorem eq {x y : Except ε α} (h : Agree (· = ·) x y) : x = y := by
  cases h with
  | error e => rfl
  | ok h => rw [h]

theorem of_eq {Q : α → α → Prop} {x y : Except ε α} (hQ : ∀ a, Q a a) (h : x = y) :
    Agree Q x y := by
  subst h
  cases x with
  | error e => exact .error e
  | ok a => exact .ok (hQ a)

theorem mono {P : α → β → Prop} (h : Agree P x y) (hPQ : ∀ a b, P a b → Q a b) : Agree Q x y := by
  cases h with
  | error e => exact .error e
  | ok h => exact .ok (hPQ _ _ h)

/-- A question after another one agrees if it does for related answers of the first. -/
theorem bind {f : α → Except ε γ} {g : β → Except ε δ} (h : Agree Q x y)
    (hfg : ∀ a b, Q a b → Agree Q' (f a) (g b)) : Agree Q' (x >>= f) (y >>= g) := by
  cases h with
  | error e => exact .error e
  | ok h => exact hfg _ _ h

theorem bind_eq {f : α → Except ε γ} {g : β → Except ε γ} (h : Agree Q x y)
    (hfg : ∀ a b, Q a b → f a = g b) : (x >>= f) = (y >>= g) := by
  cases h with
  | error e => rfl
  | ok h => exact hfg _ _ h

theorem mapError {ε' : Type} (h : Agree Q x y) (f : ε → ε') :
    Agree Q (x.mapError f) (y.mapError f) := by
  cases h with
  | error e => exact .error (f e)
  | ok h => exact .ok h

theorem mapM {f : α → Except ε γ} {g : β → Except ε δ} {l : List α} {l' : List β}
    (h : List.Forall₂ Q l l') (hfg : ∀ a b, Q a b → Agree Q' (f a) (g b)) :
    Agree (List.Forall₂ Q') (l.mapM f) (l'.mapM g) := by
  induction h with
  | nil => exact .ok .nil
  | cons hab _ ih =>
      rw [List.mapM_cons, List.mapM_cons]
      exact (hfg _ _ hab).bind fun c d hcd => ih.bind fun cs ds hcds => .ok (.cons hcd hcds)

theorem filterAuxM {f : α → Except ε Bool} {g : β → Except ε Bool} {l kept : List α}
    {l' kept' : List β} (h : List.Forall₂ Q l l') (hkept : List.Forall₂ Q kept kept')
    (hfg : ∀ a b, Q a b → f a = g b) :
    Agree (List.Forall₂ Q) (l.filterAuxM f kept) (l'.filterAuxM g kept') := by
  induction h generalizing kept kept' with
  | nil => exact .ok hkept
  | @cons a b l l' hab _ ih =>
      unfold List.filterAuxM
      rw [hfg a b hab]
      cases g b with
      | error e => exact .error e
      | ok keep =>
          cases keep with
          | false => exact ih hkept
          | true => exact ih (.cons hab hkept)

/-- What is picked from related lists by the same answers is related. -/
theorem filterM {f : α → Except ε Bool} {g : β → Except ε Bool} {l : List α} {l' : List β}
    (h : List.Forall₂ Q l l') (hfg : ∀ a b, Q a b → f a = g b) :
    Agree (List.Forall₂ Q) (l.filterM f) (l'.filterM g) :=
  (filterAuxM h .nil hfg).bind fun _ _ hkept => .ok (List.rel_reverse hkept)

theorem findSomeM? {f : γ → Except ε (Option α)} {g : γ → Except ε (Option β)} (l : List γ)
    (hfg : ∀ c ∈ l, Agree (Option.Rel Q) (f c) (g c)) :
    Agree (Option.Rel Q) (l.findSomeM? f) (l.findSomeM? g) := by
  induction l with
  | nil => exact .ok .none
  | cons c l ih =>
      refine (hfg c (by simp)).bind fun a b hab => ?_
      cases hab with
      | some h => exact .ok (.some h)
      | none => exact ih fun d hd => hfg d (List.mem_cons_of_mem _ hd)

end Agree

/-- Whether all of them pass, by answers that are all there. -/
theorem allM_eq_all {f : α → Except ε Bool} {p : α → Bool} {l : List α}
    (h : ∀ a ∈ l, f a = .ok (p a)) : l.allM f = .ok (l.all p) := by
  induction l with
  | nil => rfl
  | cons a l ih =>
      have hrest := ih fun b hb => h b (List.mem_cons_of_mem _ hb)
      show f a >>= _ = _
      rw [h a (List.mem_cons_self ..), List.all_cons]
      cases p a with
      | false => rfl
      | true => exact hrest

/-- What is picked by answers that are all there. -/
theorem filterM_eq_filter {f : α → Except ε Bool} {p : α → Bool} {l : List α}
    (h : ∀ a ∈ l, f a = .ok (p a)) : l.filterM f = .ok (l.filter p) := by
  have haux : ∀ kept : List α, l.filterAuxM f kept = .ok ((l.filter p).reverse ++ kept) := by
    induction l with
    | nil => exact fun kept => rfl
    | cons a l ih =>
        intro kept
        have hrest := ih fun b hb => h b (List.mem_cons_of_mem _ hb)
        unfold List.filterAuxM
        rw [h a (List.mem_cons_self ..), List.filter_cons]
        cases p a with
        | false => exact hrest kept
        | true =>
            show l.filterAuxM f (a :: kept) = _
            rw [hrest (a :: kept)]
            simp
  show (l.filterAuxM f [] >>= fun kept => pure kept.reverse) = _
  rw [haux []]
  show Except.ok (_ : List α) = _
  simp

theorem map_eq_of_forall₂ {Q : α → β → Prop} {f : α → γ} {g : β → γ} {l : List α} {l' : List β}
    (h : List.Forall₂ Q l l') (hfg : ∀ a b, Q a b → f a = g b) : l.map f = l'.map g := by
  induction h with
  | nil => rfl
  | cons hab _ ih => rw [List.map_cons, List.map_cons, hfg _ _ hab, ih]

theorem mapM_eq_of_forall₂ {m : Type → Type} [Monad m] [LawfulMonad m] {Q : α → β → Prop}
    {f : α → m γ} {g : β → m γ} {l : List α} {l' : List β} (h : List.Forall₂ Q l l')
    (hfg : ∀ a b, Q a b → f a = g b) : l.mapM f = l'.mapM g := by
  induction h with
  | nil => rfl
  | cons hab _ ih => rw [List.mapM_cons, List.mapM_cons, hfg _ _ hab, ih]

theorem forM_eq_of_forall₂ {m : Type → Type} [Monad m] {Q : α → β → Prop}
    {f : α → m PUnit} {g : β → m PUnit} {l : List α} {l' : List β} (h : List.Forall₂ Q l l')
    (hfg : ∀ a b, Q a b → f a = g b) : l.forM f = l'.forM g := by
  induction h with
  | nil => rfl
  | @cons a b l l' hab _ ih =>
      show (f a >>= fun _ => l.forM f) = (g b >>= fun _ => l'.forM g)
      rw [hfg _ _ hab, ih]

theorem allM_eq_of_forall₂ {m : Type → Type} [Monad m] {Q : α → β → Prop}
    {f : α → m Bool} {g : β → m Bool} {l : List α} {l' : List β} (h : List.Forall₂ Q l l')
    (hfg : ∀ a b, Q a b → f a = g b) : l.allM f = l'.allM g := by
  induction h with
  | nil => rfl
  | cons hab _ ih => rw [List.allM, List.allM, hfg _ _ hab, ih]

/-! ### Values that may be missing -/

theorem optionRel_mono {P Q : α → β → Prop} {a : Option α} {b : Option β} (h : Option.Rel P a b)
    (hPQ : ∀ a b, P a b → Q a b) : Option.Rel Q a b := by
  cases h with
  | none => exact .none
  | some h => exact .some (hPQ _ _ h)

theorem optionRel_self {Q : α → α → Prop} {a : Option α} (h : ∀ b, a = some b → Q b b) :
    Option.Rel Q a a := by
  cases a with
  | none => exact .none
  | some b => exact .some (h b rfl)

theorem optionRel_cases {Q : α → β → Prop} {a : Option α} {b : Option β} (h : Option.Rel Q a b) :
    (a = none ∧ b = none) ∨ ∃ x y, a = some x ∧ b = some y ∧ Q x y := by
  cases h with
  | none => exact Or.inl ⟨rfl, rfl⟩
  | some h => exact Or.inr ⟨_, _, rfl, rfl, h⟩

theorem optionRel_isSome {Q : α → β → Prop} {a : Option α} {b : Option β} (h : Option.Rel Q a b) :
    a.isSome = b.isSome := by
  cases h <;> rfl

theorem forall₂_head? {Q : α → β → Prop} {l : List α} {l' : List β} (h : List.Forall₂ Q l l') :
    Option.Rel Q l.head? l'.head? := by
  cases h with
  | nil => exact .none
  | cons h _ => exact .some h

theorem forall₂_isEmpty {Q : α → β → Prop} {l : List α} {l' : List β} (h : List.Forall₂ Q l l') :
    l.isEmpty = l'.isEmpty := by
  cases h <;> rfl

theorem forall₂_getLast? {Q : α → β → Prop} {l : List α} {l' : List β} (h : List.Forall₂ Q l l') :
    Option.Rel Q l.getLast? l'.getLast? := by
  rw [List.getLast?_eq_head?_reverse, List.getLast?_eq_head?_reverse]
  exact forall₂_head? (List.rel_reverse h)

/-- What is true of all members of a list is true of those that they are related to. -/
theorem forall_mem_of_forall₂ {Q : α → β → Prop} {p : α → Prop} {q : β → Prop} {l : List α}
    {l' : List β} (h : List.Forall₂ Q l l') (hpq : ∀ a b, Q a b → p a → q b) (hl : ∀ a ∈ l, p a) :
    ∀ b ∈ l', q b := by
  induction h with
  | nil => exact fun b hb => nomatch hb
  | cons hab _ ih =>
      obtain ⟨ha, hrest⟩ := List.forall_mem_cons.mp hl
      exact List.forall_mem_cons.mpr ⟨hpq _ _ hab ha, ih hrest⟩

theorem exists_of_forall₂_left {Q : α → β → Prop} {l : List α} {l' : List β}
    (h : List.Forall₂ Q l l') {a : α} (ha : a ∈ l) : ∃ b ∈ l', Q a b := by
  induction h with
  | nil => cases ha
  | cons hab _ ih =>
      rcases List.mem_cons.mp ha with rfl | ha
      · exact ⟨_, by simp, hab⟩
      · obtain ⟨b, hb, hab⟩ := ih ha
        exact ⟨b, List.mem_cons_of_mem _ hb, hab⟩

theorem exists_of_forall₂_right {Q : α → β → Prop} {l : List α} {l' : List β}
    (h : List.Forall₂ Q l l') {b : β} (hb : b ∈ l') : ∃ a ∈ l, Q a b :=
  exists_of_forall₂_left h.flip hb

/-- Results that are all there. -/
theorem forall₂_filterMap_id {R : α → β → Prop} {l : List α} {rs : List (Option β)}
    (h : List.Forall₂ (fun a r => ∃ b, r = some b ∧ R a b) l rs) :
    List.Forall₂ R l (rs.filterMap id) := by
  induction h with
  | nil => exact .nil
  | cons hfirst _ ih =>
      obtain ⟨b, rfl, hb⟩ := hfirst
      exact .cons hb ih

/-- Results that are there where something holds, seen through a function. -/
theorem map_filterMap_of_forall₂ {p : α → Bool} {f : α → γ} {g : β → γ} {l : List α}
    {rs : List (Option β)}
    (h : List.Forall₂ (fun a r => r.map g = if p a then some (f a) else none) l rs) :
    (rs.filterMap id).map g = (l.filter p).map f := by
  induction h with
  | nil => rfl
  | @cons a r l rs hfirst _ ih =>
      cases hp : p a with
      | false =>
          rw [hp] at hfirst
          obtain rfl : r = none := by simpa using hfirst
          rw [List.filter_cons_of_neg (by simp [hp]), List.filterMap_cons_none rfl, ih]
      | true =>
          rw [hp] at hfirst
          obtain ⟨b, rfl, hb⟩ := Option.map_eq_some_iff.mp hfirst
          have hrest : (some b :: rs).filterMap id = b :: rs.filterMap id := rfl
          rw [List.filter_cons_of_pos hp, hrest, List.map_cons, List.map_cons, ih, hb]

theorem forall₂_comp {Q : α → β → Prop} {R : β → γ → Prop} {l : List α} {l' : List β}
    {l'' : List γ} (h : List.Forall₂ Q l l') (h' : List.Forall₂ R l' l'') :
    List.Forall₂ (fun a c => ∃ b, Q a b ∧ R b c) l l'' := by
  induction h generalizing l'' with
  | nil =>
      cases h'
      exact .nil
  | cons hab _ ih =>
      cases h' with
      | cons hbc hrest => exact .cons ⟨_, hab, hbc⟩ (ih hrest)

/-- What two lists keep of related members is related. -/
theorem forall₂_filter {Q : α → β → Prop} {p : α → Bool} {q : β → Bool} {l : List α} {l' : List β}
    (h : List.Forall₂ Q l l') (hpq : ∀ a b, Q a b → p a = q b) :
    List.Forall₂ (fun a b => Q a b ∧ p a = true) (l.filter p) (l'.filter q) := by
  induction h with
  | nil => exact .nil
  | @cons a b l l' hab _ ih =>
      rw [List.filter_cons, List.filter_cons, ← hpq a b hab]
      split
      · rename_i hkept
        exact .cons ⟨hab, hkept⟩ ih
      · exact ih

/-- What is made of the members of a list in two ways is related if it is for each of them. -/
theorem forall₂_filterMap {Q : α → β → Prop} {f : γ → Option α} {g : γ → Option β} {l : List γ}
    (h : ∀ c ∈ l, Option.Rel Q (f c) (g c)) : List.Forall₂ Q (l.filterMap f) (l.filterMap g) := by
  induction l with
  | nil => exact .nil
  | cons c l ih =>
      have hc := h c (by simp)
      have hrest := ih fun d hd => h d (List.mem_cons_of_mem _ hd)
      rw [List.filterMap_cons, List.filterMap_cons]
      generalize f c = a at hc
      generalize g c = b at hc
      cases hc with
      | none => exact hrest
      | some hab => exact .cons hab hrest

/-! ### Tables -/

namespace Fields

/-- **Related tables**: the same keys in the same order, and related values under each of them. -/
def Related (R : String → α → β → Prop) : Fields α → Fields β → Prop :=
  List.Forall₂ fun e f => e.1 = f.1 ∧ R e.1 e.2 f.2

namespace Related

variable {R : String → α → β → Prop} {t t' : Fields α} {u u' : Fields β} {key : String}

theorem nil : Related R [] [] := List.Forall₂.nil

theorem cons {v : α} {w : β} (h : R key v w) (hrest : Related R t u) :
    Related R ((key, v) :: t) ((key, w) :: u) :=
  List.Forall₂.cons ⟨rfl, h⟩ hrest

theorem refl {R : String → α → α → Prop} (h : ∀ key v, R key v v) (t : Fields α) :
    Related R t t :=
  List.forall₂_same.mpr fun e _ => ⟨rfl, h e.1 e.2⟩

theorem mono {P : String → α → β → Prop} (h : Related P t u)
    (hPR : ∀ key v w, P key v w → R key v w) : Related R t u :=
  h.imp fun _ _ he => ⟨he.1, hPR _ _ _ he.2⟩

theorem keys (h : Related R t u) : Fields.keys t = Fields.keys u := by
  induction h with
  | nil => rfl
  | cons he _ ih => exact congrArg₂ _ he.1 ih

theorem append (h : Related R t u) (h' : Related R t' u') : Related R (t ++ t') (u ++ u') :=
  List.rel_append h h'

theorem get? (h : Related R t u) (key : String) :
    Option.Rel (R key) (Fields.get? t key) (Fields.get? u key) := by
  induction h with
  | nil => exact .none
  | @cons e f t u he _ ih =>
      obtain ⟨k, v⟩ := e
      obtain ⟨l, w⟩ := f
      obtain ⟨rfl, hvw⟩ := he
      by_cases hk : k = key
      · subst hk
        simpa [Fields.get?] using Option.Rel.some hvw
      · simpa [Fields.get?, hk] using ih

theorem get?_eq {R : String → α → α → Prop} {t u : Fields α} (h : Related R t u)
    (hR : ∀ v w, R key v w → v = w) : Fields.get? t key = Fields.get? u key := by
  have hget := h.get? key
  generalize Fields.get? t key = a at hget
  generalize Fields.get? u key = b at hget
  cases hget with
  | none => rfl
  | some hvw => rw [hR _ _ hvw]

theorem set (h : Related R t u) {v : α} {w : β} (hvw : R key v w) :
    Related R (Fields.set t key v) (Fields.set u key w) := by
  induction h with
  | nil => exact cons hvw nil
  | @cons e f t u he hrest ih =>
      obtain ⟨k, a⟩ := e
      obtain ⟨l, b⟩ := f
      obtain ⟨rfl, hab⟩ := he
      by_cases hk : k = key
      · subst hk
        simpa [Fields.set] using cons hvw hrest
      · simpa [Fields.set, hk] using cons hab ih

theorem update (h : Related R t u) (h' : Related R t' u') :
    Related R (Fields.update t t') (Fields.update u u') := by
  induction h' generalizing t u with
  | nil => exact h
  | @cons e f t' u' he _ ih =>
      obtain ⟨k, a⟩ := e
      obtain ⟨l, b⟩ := f
      obtain ⟨rfl, hab⟩ := he
      exact ih (h.set hab)

theorem ofEntries (h : Related R t u) : Related R (Fields.ofEntries t) (Fields.ofEntries u) :=
  nil.update h

theorem map {γ δ : Type} {Q : String → γ → δ → Prop} {f : String → α → γ} {g : String → β → δ}
    (h : Related R t u) (hfg : ∀ key v w, R key v w → Q key (f key v) (g key w)) :
    Related Q (t.map fun e => (e.1, f e.1 e.2)) (u.map fun e => (e.1, g e.1 e.2)) := by
  refine List.forall₂_map_left_iff.mpr (List.forall₂_map_right_iff.mpr
    (h.imp fun e e' he => ⟨he.1, ?_⟩))
  have hvw := hfg _ _ _ he.2
  rwa [he.1] at hvw ⊢

theorem mapValues {γ δ : Type} {Q : String → γ → δ → Prop} {f : α → γ} {g : β → δ}
    (h : Related R t u) (hfg : ∀ key v w, R key v w → Q key (f v) (g w)) :
    Related Q (Fields.mapValues f t) (Fields.mapValues g u) :=
  h.map hfg

/-- A table with another value under one of its keys. -/
theorem set_right {R : String → α → α → Prop} (hrefl : ∀ key v, R key v v) {t : Fields α} {v w : α}
    (h : Fields.get? t key = some v) (hvw : R key v w) : Related R t (Fields.set t key w) := by
  induction t with
  | nil => cases h
  | cons e t ih =>
      obtain ⟨k, a⟩ := e
      by_cases hk : k = key
      · subst hk
        simp only [Fields.get?, if_true, Option.some.injEq] at h
        subst h
        simpa [Fields.set] using cons hvw (refl hrefl t)
      · rw [Fields.get?, if_neg hk] at h
        simpa [Fields.set, hk] using cons (hrefl k a) (ih h)

end Related

end Fields

end ApiClientGen
