/-
How questions end.

A question that may fail is judged by both ways in which it can end: by what holds of its answer
and by what holds of its failure.  Of two questions in a row the first one may be judged by
itself, and the second one for the answers that the first one can have.

A program that is run from a state ends with an answer and a new state, or with a failure, and it
is judged in the same way.  Of two programs in a row, the second one is judged in the states that
the first one can end in.
-/
import Mathlib.Data.List.Forall2

namespace ApiClientGen

/-! ### Questions -/

variable {ε α β : Type} {P : α → Prop} {Q : β → Prop} {F G : ε → Prop}

/-- A question ends well: `P` holds of its answer, or `F` of its failure. -/
def Ends (P : α → Prop) (F : ε → Prop) : Except ε α → Prop
  | .ok a => P a
  | .error e => F e

instance [DecidablePred P] [DecidablePred F] (x : Except ε α) : Decidable (Ends P F x) :=
  match x with
  | .ok a => inferInstanceAs (Decidable (P a))
  | .error e => inferInstanceAs (Decidable (F e))

namespace Ends

theorem of_error {x : Except ε α} {e : ε} (h : Ends P F x) (hx : x = .error e) : F e := by
  rw [hx] at h
  exact h

theorem of_ok {x : Except ε α} {a : α} (h : Ends P F x) (hx : x = .ok a) : P a := by
  rw [hx] at h
  exact h

/-- A question that never fails has an answer. -/
theorem exists_ok {x : Except ε α} (h : Ends P (fun _ => False) x) : ∃ a, x = .ok a ∧ P a := by
  cases x with
  | ok a => exact ⟨a, rfl, h⟩
  | error e => exact h.elim

/-- Only the answer and the failure of a question have to be looked at. -/
theorem intro {x : Except ε α} (hok : ∀ a, x = .ok a → P a) (herror : ∀ e, x = .error e → F e) :
    Ends P F x := by
  cases x with
  | ok a => exact hok a rfl
  | error e => exact herror e rfl

/-- Of any question, nothing is told. -/
theorem any (x : Except ε α) : Ends (fun _ => True) (fun _ => True) x :=
  intro (fun _ _ => trivial) fun _ _ => trivial

theorem mono {P' : α → Prop} {x : Except ε α} (h : Ends P F x) (hP : ∀ a, P a → P' a)
    (hF : ∀ e, F e → G e) : Ends P' G x := by
  cases x with
  | ok a => exact hP a h
  | error e => exact hF e h

theorem bind {x : Except ε α} {f : α → Except ε β} (hx : Ends P F x)
    (hf : ∀ a, P a → Ends Q F (f a)) : Ends Q F (x >>= f) := by
  cases x with
  | ok a => exact hf a hx
  | error e => exact hx

theorem map {x : Except ε α} {f : α → β} (hx : Ends P F x) (hf : ∀ a, P a → Q (f a)) :
    Ends Q F (f <$> x) := by
  cases x with
  | ok a => exact hf a hx
  | error e => exact hx

theorem mapError {x : Except ε α} {f : ε → β} (hx : Ends P F x) (hf : ∀ e, F e → Q (f e)) :
    Ends P Q (x.mapError f) := by
  cases x with
  | ok a => exact hx
  | error e => exact hf e hx

/-- A failure that is handed out in another form, whatever it is. -/
theorem of_mapError {x : Except ε α} {f : ε → β} (h : ∀ e, Q (f e)) :
    Ends (fun a => x = .ok a) Q (x.mapError f) := by
  cases x with
  | ok a => rfl
  | error e => exact h e

theorem ite {c : Prop} [Decidable c] {x y : Except ε α} (hx : Ends P F x) (hy : Ends P F y) :
    Ends P F (if c then x else y) := by
  split
  · exact hx
  · exact hy

/-- Each of several things has its answer. -/
theorem mapM {f : α → Except ε β} {l : List α} (h : ∀ a ∈ l, Ends Q F (f a)) :
    Ends (fun bs => bs.length = l.length ∧ ∀ b ∈ bs, Q b) F (l.mapM f) := by
  induction l with
  | nil => exact ⟨rfl, fun _ hb => nomatch hb⟩
  | cons a l ih =>
      rw [List.mapM_cons]
      refine (h a (by simp)).bind fun b hb => ?_
      refine (ih fun x hx => h x (List.mem_cons_of_mem _ hx)).bind fun bs hbs => ?_
      exact ⟨congrArg (· + 1) hbs.1, List.forall_mem_cons.mpr ⟨hb, hbs.2⟩⟩

/-- Each of several things has its answer, and they are related to the things in order. -/
theorem mapM_forall₂ {R : α → β → Prop} {f : α → Except ε β} {l : List α}
    (h : ∀ a ∈ l, Ends (R a) F (f a)) : Ends (List.Forall₂ R l) F (l.mapM f) := by
  induction l with
  | nil => exact .nil
  | cons a l ih =>
      rw [List.mapM_cons]
      refine (h a (by simp)).bind fun b hb => ?_
      exact (ih fun x hx => h x (List.mem_cons_of_mem _ hx)).bind fun bs hbs => .cons hb hbs

/-- What each of several steps keeps holds behind the last one. -/
theorem foldlM {step : α → β → Except ε α} {l : List β}
    (hstep : ∀ a, ∀ b ∈ l, P a → Ends P F (step a b)) {a : α} (ha : P a) :
    Ends P F (l.foldlM step a) := by
  induction l generalizing a with
  | nil => exact ha
  | cons b l ih =>
      rw [List.foldlM_cons]
      refine (hstep a b List.mem_cons_self ha).bind fun a' ha' => ?_
      exact ih (fun a b hb => hstep a b (List.mem_cons_of_mem _ hb)) ha'

/-- Of what is kept holds what follows from keeping it. -/
theorem filterM {f : α → Except ε Bool} {l : List α}
    (h : ∀ a ∈ l, Ends (fun kept => kept = true → P a) F (f a)) :
    Ends (fun as => ∀ a ∈ as, P a) F (l.filterM f) := by
  have haux : ∀ (l done : List α), (∀ a ∈ l, Ends (fun kept => kept = true → P a) F (f a)) →
      (∀ a ∈ done, P a) → Ends (fun as => ∀ a ∈ as, P a) F (l.filterAuxM f done) := by
    intro l
    induction l with
    | nil => exact fun done _ hdone => hdone
    | cons b l ih =>
        intro done hl hdone
        obtain ⟨hb, hl⟩ := List.forall_mem_cons.mp hl
        rw [List.filterAuxM]
        refine hb.bind fun kept hkept => ?_
        cases kept with
        | true => exact ih _ hl (List.forall_mem_cons.mpr ⟨hkept rfl, hdone⟩)
        | false => exact ih _ hl hdone
  exact (haux l [] h nofun).bind fun as has a ha => has a (List.mem_reverse.mp ha)

end Ends

end ApiClientGen

namespace ApiClientGen

/-! ### Programs that change a state -/

variable {σ ε ε' α β : Type}

/-- A program run from a state ends well: `P` holds of its answer and the new state, or `F` of its failure. -/
def EndsFrom (w : σ) (x : ExceptT ε (StateM σ) α) (P : α → σ → Prop) (F : ε → Prop) : Prop :=
  Ends (fun a => P a (x.run.run w).2) F (x.run.run w).1

namespace EndsFrom

variable {w : σ} {P : α → σ → Prop} {Q : β → σ → Prop} {F : ε → Prop} {x : ExceptT ε (StateM σ) α}

theorem of_run {w' : σ} {r : Except ε α} (h : EndsFrom w x P F) (hrun : x.run.run w = (r, w')) :
    Ends (fun a => P a w') F r := by
  unfold EndsFrom at h
  rwa [hrun] at h

theorem intro (h : ∀ r w', x.run.run w = (r, w') → Ends (fun a => P a w') F r) : EndsFrom w x P F :=
  h _ _ rfl

theorem pure {a : α} (h : P a w) : EndsFrom w (Pure.pure a : ExceptT ε (StateM σ) α) P F := h

theorem throw {e : ε} (h : F e) :
    EndsFrom w (MonadExcept.throw e : ExceptT ε (StateM σ) α) P F := h

/-- Something that cannot fail only changes the state. -/
theorem lift {m : StateM σ α} (h : P (m.run w).1 (m.run w).2) :
    EndsFrom w (ExceptT.lift m : ExceptT ε (StateM σ) α) P F := h

/-- A question that has nothing to do with the state. -/
theorem ask {r : Except ε α} (h : Ends (fun a => P a w) F r) :
    EndsFrom w (ExceptT.mk (Pure.pure r) : ExceptT ε (StateM σ) α) P F := h

/-- Something that cannot fail, and then a question that depends on what came of it. -/
theorem after {m : StateM σ β} {f : β → StateM σ (Except ε α)}
    (h : ∀ b w', m.run w = (b, w') → EndsFrom w' (ExceptT.mk (f b)) P F) :
    EndsFrom w (ExceptT.mk (m >>= f)) P F := h _ _ rfl

/-- What cannot fail has its answer. -/
theorem run_lift {m : StateM σ β} {b : β} {w' : σ} (h : m.run w = (b, w')) :
    (liftM m : ExceptT ε (StateM σ) β).run.run w = (.ok b, w') := by
  show (match m.run w with | (b, w') => ((Except.ok b : Except ε β), w')) = _
  rw [h]

theorem run_bind_ok {f : α → ExceptT ε (StateM σ) β} {a : α} {w' : σ}
    (h : x.run.run w = (.ok a, w')) : (x >>= f).run.run w = (f a).run.run w' := by
  rw [ExceptT.run_bind, StateT.run_bind, h]
  rfl

theorem run_bind_error {f : α → ExceptT ε (StateM σ) β} {e : ε} {w' : σ}
    (h : x.run.run w = (.error e, w')) : (x >>= f).run.run w = (.error e, w') := by
  rw [ExceptT.run_bind, StateT.run_bind, h]
  rfl

theorem bind {f : α → ExceptT ε (StateM σ) β} (hx : EndsFrom w x P F)
    (hf : ∀ a w', x.run.run w = (.ok a, w') → P a w' → EndsFrom w' (f a) Q F) :
    EndsFrom w (x >>= f) Q F := by
  cases hrun : x.run.run w with
  | mk r w' =>
      have hend := hx.of_run hrun
      unfold EndsFrom
      cases r with
      | ok a =>
          rw [run_bind_ok hrun]
          exact hf a w' hrun hend
      | error e =>
          rw [run_bind_error hrun]
          exact hend

/-- Something that cannot fail, and then a program that depends on what came of it. -/
theorem afterLift {m : StateM σ α} {f : α → ExceptT ε (StateM σ) β}
    (h : ∀ a w', m.run w = (a, w') → EndsFrom w' (f a) Q F) :
    EndsFrom w (ExceptT.lift m >>= f) Q F :=
  bind (P := fun a w' => m.run w = (a, w')) (lift rfl) fun a w' _ hrun => h a w' hrun

/-- What a program ends with is what it has been run to. -/
theorem withRun (hx : EndsFrom w x P F) :
    EndsFrom w x (fun a w' => x.run.run w = (.ok a, w') ∧ P a w') F := by
  cases hrun : x.run.run w with
  | mk r w' =>
      have hend := hx.of_run hrun
      unfold EndsFrom
      rw [hrun]
      cases r with
      | ok a => exact ⟨rfl, hend⟩
      | error e => exact hend

/-- A failure that is handed out in another form. -/
theorem adapt {g : ε → ε'} {G : ε' → Prop} (hx : EndsFrom w x P F) (hg : ∀ e, F e → G (g e)) :
    EndsFrom w (x.adapt g) P G := by
  cases hrun : x.run.run w with
  | mk r w' =>
      have hadapt : (x.adapt g).run.run w = (r.mapError g, w') := by
        show ((x.run.run w).1.mapError g, (x.run.run w).2) = _
        rw [hrun]
      have hend := hx.of_run hrun
      unfold EndsFrom
      rw [hadapt]
      exact hend.mapError hg

theorem mono {P' : α → σ → Prop} {G : ε → Prop} (hx : EndsFrom w x P F)
    (hP : ∀ a w', P a w' → P' a w') (hF : ∀ e, F e → G e) : EndsFrom w x P' G :=
  Ends.mono hx (fun a => hP a _) hF

end EndsFrom

end ApiClientGen
