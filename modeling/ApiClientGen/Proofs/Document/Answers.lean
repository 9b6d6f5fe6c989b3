/-
Questions that may fail.

A question to a document has an answer or fails.  Of two questions in a row the second one is
only asked when the first one has an answer, and that is all that may be used of it: two rows
of questions are the same if they agree where they are asked, and a row that does not fail in
one way stays as it is while answers are only added to questions that failed in that way.
-/

namespace ApiClientGen

variable {ε α β : Type}

theorem except_bind_ok {x : Except ε α} {f : α → Except ε β} {b : β} :
    (x >>= f) = .ok b ↔ ∃ a, x = .ok a ∧ f a = .ok b := by
  cases x with
  | error e =>
      constructor
      · intro h
        cases h
      · rintro ⟨a, h, -⟩
        cases h
  | ok a =>
      constructor
      · intro h
        exact ⟨a, rfl, h⟩
      · rintro ⟨a', h, hf⟩
        cases h
        exact hf

theorem except_pure_ok {a b : α} : (pure a : Except ε α) = .ok b ↔ a = b := by
  constructor
  · intro h
    cases h
    rfl
  · rintro rfl
    rfl

theorem except_exists_ok {x : Except ε α} (h : x.toOption.isSome = true) : ∃ a, x = .ok a := by
  cases x with
  | error e => cases h
  | ok a => exact ⟨a, rfl⟩

theorem except_mapError_ok {ε' : Type} {x : Except ε α} {f : ε → ε'} {a : α} :
    x.mapError f = .ok a ↔ x = .ok a := by
  cases x with
  | error e =>
      constructor
      · intro h
        cases h
      · intro h
        cases h
  | ok b =>
      constructor
      · intro h
        cases h
        rfl
      · rintro ⟨⟩
        rfl

/-- A second question only matters for the answer of the first one. -/
theorem except_bind_congr {x : Except ε α} {f g : α → Except ε β}
    (h : ∀ a, x = .ok a → f a = g a) : (x >>= f) = (x >>= g) := by
  cases x with
  | error e => rfl
  | ok a => exact h a rfl

/-- More answers for what failed in one way leave a row alone that does not fail so. -/
theorem except_bind_mono {fault : ε} {x y : Except ε α} {f g : α → Except ε β}
    (hx : x ≠ .error fault → y = x) (hf : ∀ a, f a ≠ .error fault → g a = f a)
    (h : (x >>= f) ≠ .error fault) : (y >>= g) = (x >>= f) := by
  cases x with
  | error e =>
      rw [hx fun heq => h (by cases heq; rfl)]
      rfl
  | ok a =>
      rw [hx (fun heq => nomatch heq)]
      exact hf a h

theorem mapM_congr {m : Type → Type} [Monad m] [LawfulMonad m] {f g : α → m β} {l : List α}
    (h : ∀ a ∈ l, f a = g a) : l.mapM f = l.mapM g := by
  induction l with
  | nil => rfl
  | cons a l ih =>
      rw [List.mapM_cons, List.mapM_cons, h a (by simp),
        ih fun b hb => h b (List.mem_cons_of_mem _ hb)]

/-- Answers that are known beforehand. -/
theorem mapM_map_pure {m : Type → Type} [Monad m] [LawfulMonad m] {γ : Type} {f : β → m γ} {k : α → β}
    {g : α → γ} {l : List α} (h : ∀ a ∈ l, f (k a) = pure (g a)) :
    (l.map k).mapM f = pure (l.map g) := by
  rw [List.mapM_map, mapM_congr (f := f ∘ k) (g := fun a => pure (g a)) h, List.mapM_pure]

theorem forM_congr {m : Type → Type} [Monad m] {f g : α → m PUnit} {l : List α}
    (h : ∀ a ∈ l, f a = g a) : l.forM f = l.forM g := by
  induction l with
  | nil => rfl
  | cons a l ih =>
      show (f a >>= fun _ => l.forM f) = (g a >>= fun _ => l.forM g)
      rw [h a (by simp), ih fun b hb => h b (List.mem_cons_of_mem _ hb)]

/-- What is found in a list is an answer about one of its members. -/
theorem except_findSomeM?_ok {f : α → Except ε (Option β)} {l : List α} {b : β}
    (h : l.findSomeM? f = .ok (some b)) : ∃ a ∈ l, f a = .ok (some b) := by
  induction l with
  | nil => cases h
  | cons a l ih =>
      unfold List.findSomeM? at h
      obtain ⟨found, hfound, h⟩ := except_bind_ok.mp h
      cases found with
      | some c =>
          cases h
          exact ⟨a, by simp, hfound⟩
      | none =>
          obtain ⟨c, hc, heq⟩ := ih h
          exact ⟨c, List.mem_cons_of_mem _ hc, heq⟩

/-- Answers that are also those to other questions. -/
theorem except_mapM_ok_imp {f g : α → Except ε β} (h : ∀ a b, f a = .ok b → g a = .ok b) {l : List α}
    {bs : List β} (hl : l.mapM f = .ok bs) : l.mapM g = .ok bs := by
  induction l generalizing bs with
  | nil => exact hl
  | cons a l ih =>
      rw [List.mapM_cons] at hl ⊢
      obtain ⟨b, hb, hl⟩ := except_bind_ok.mp hl
      obtain ⟨rest, hrest, hl⟩ := except_bind_ok.mp hl
      rw [h a b hb, ih hrest]
      exact hl

theorem except_mapM_mono {fault : ε} {f g : α → Except ε β} {l : List α}
    (hf : ∀ a, f a ≠ .error fault → g a = f a) (h : l.mapM f ≠ .error fault) :
    l.mapM g = l.mapM f := by
  induction l with
  | nil => rfl
  | cons a l ih =>
      rw [List.mapM_cons] at h
      rw [List.mapM_cons, List.mapM_cons]
      refine except_bind_mono (hf a) (fun b hb => ?_) h
      exact except_bind_mono ih (fun _ _ => rfl) hb

end ApiClientGen
