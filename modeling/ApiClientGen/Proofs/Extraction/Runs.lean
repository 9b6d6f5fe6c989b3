/-
Runs of the parts of an extraction.

A part of an extraction that succeeds leads from what is kept in mind before to a result and
to what is kept in mind after.  The lemmas here take such a run apart, one for each way in
which parts are put together, so that nothing about the state has to be unfolded later: a
question to the document leaves the state as it is, and of two parts in a row the second one
starts where the first one ended.
-/
import ApiClientGen.Extraction.Spec
import ApiClientGen.Proofs.Document.Answers
import ApiClientGen.Proofs.Naming.ModelNames

namespace ApiClientGen.Extraction

open ApiClientGen.Document ApiClientGen.Reference ApiClientGen.Spec

variable {α β : Type}

/-! ### Parts of an extraction -/

namespace Extract

variable {p p' : Progress}

theorem pure_ok {a b : α} : (pure a : Extract α).run p = .ok (b, p') ↔ a = b ∧ p = p' := by
  constructor
  · intro h
    cases h
    exact ⟨rfl, rfl⟩
  · rintro ⟨rfl, rfl⟩
    rfl

theorem bind_ok {m : Extract α} {f : α → Extract β} {b : β} :
    (m >>= f).run p = .ok (b, p')
      ↔ ∃ a p₁, m.run p = .ok (a, p₁) ∧ (f a).run p₁ = .ok (b, p') := by
  rw [StateT.run_bind]
  constructor
  · intro h
    obtain ⟨⟨a, p₁⟩, hm, hf⟩ := except_bind_ok.mp h
    exact ⟨a, p₁, hm, hf⟩
  · rintro ⟨a, p₁, hm, hf⟩
    exact except_bind_ok.mpr ⟨(a, p₁), hm, hf⟩

/-- A question to the document leaves everything as it is. -/
theorem lift_ok {e : Except Failure α} {a : α} :
    (liftM e : Extract α).run p = .ok (a, p') ↔ e = .ok a ∧ p = p' := by
  cases e with
  | error f =>
      constructor
      · intro h
        cases h
      · rintro ⟨h, -⟩
        cases h
  | ok b =>
      constructor
      · intro h
        cases h
        exact ⟨rfl, rfl⟩
      · rintro ⟨h, rfl⟩
        cases h
        rfl

/-- A question to the document in front of a part. -/
theorem lift_bind_ok {e : Except Failure α} {f : α → Extract β} {b : β} :
    (liftM e >>= f : Extract β).run p = .ok (b, p')
      ↔ ∃ a, e = .ok a ∧ (f a).run p = .ok (b, p') := by
  rw [bind_ok]
  constructor
  · rintro ⟨a, p₁, hrun, hf⟩
    obtain ⟨he, rfl⟩ := lift_ok.mp hrun
    exact ⟨a, he, hf⟩
  · rintro ⟨a, he, hf⟩
    exact ⟨a, p, lift_ok.mpr ⟨he, rfl⟩, hf⟩

/-- A part behind a question only matters for the answer. -/
theorem lift_bind_congr {e : Except Failure α} {f g : α → Extract β}
    (h : ∀ a, e = .ok a → f a = g a) : (liftM e >>= f : Extract β) = liftM e >>= g := by
  cases e with
  | error failure => rfl
  | ok a => exact h a rfl

theorem get_ok {a : Progress} :
    (get : Extract Progress).run p = .ok (a, p') ↔ p = a ∧ p = p' := by
  constructor
  · intro h
    cases h
    exact ⟨rfl, rfl⟩
  · rintro ⟨rfl, rfl⟩
    rfl

theorem mapM_nil_ok {f : α → Extract β} {bs : List β} :
    (([] : List α).mapM f).run p = .ok (bs, p') ↔ bs = [] ∧ p = p' := by
  rw [List.mapM_nil, pure_ok, eq_comm]

theorem mapM_cons_ok {f : α → Extract β} {a : α} {l : List α} {bs : List β} :
    ((a :: l).mapM f).run p = .ok (bs, p')
      ↔ ∃ b rest p₁, (f a).run p = .ok (b, p₁) ∧ (l.mapM f).run p₁ = .ok (rest, p')
          ∧ bs = b :: rest := by
  simp only [List.mapM_cons, bind_ok, pure_ok]
  constructor
  · rintro ⟨b, p₁, hb, rest, p₂, hrest, rfl, rfl⟩
    exact ⟨b, rest, p₁, hb, hrest, rfl⟩
  · rintro ⟨b, rest, p₁, hb, hrest, rfl⟩
    exact ⟨b, p₁, hb, rest, p', hrest, rfl, rfl⟩

end Extract

/-- A name that is taken is the first free one, and is taken from then on. -/
theorem takeModelName_ok {hint name : String} {p p' : Progress} :
    (takeModelName hint).run p = .ok (name, p')
      ↔ name = freeModelName p.models hint ∧ p' = { p with models := name :: p.models } := by
  constructor
  · intro h
    cases h
    exact ⟨rfl, rfl⟩
  · rintro ⟨rfl, rfl⟩
    rfl

theorem keep_ok {key : String} {schema : Schema} {u : Unit} {p p' : Progress} :
    (keep key schema).run p = .ok (u, p')
      ↔ p' = { p with schemas := p.schemas ++ [(key, schema)] } := by
  constructor
  · intro h
    cases h
    rfl
  · rintro rfl
    rfl

theorem takeOperationName_ok {wanted name : String} {p p' : Progress} :
    (takeOperationName wanted).run p = .ok (name, p')
      ↔ name = freeOperationName p.operations wanted
        ∧ p' = { p with operations := name :: p.operations } := by
  constructor
  · intro h
    cases h
    exact ⟨rfl, rfl⟩
  · rintro ⟨rfl, rfl⟩
    rfl

/-- A model of its own: a name is taken, the model is made, and it is kept under the name. -/
theorem hoist_ok {hint : String} {model : String → Extract Schema} {t : TypeRef}
    {p p' : Progress} :
    (Scope.hoist hint model).run p = .ok (t, p')
      ↔ ∃ schema p₁,
          (model (freeModelName p.models hint)).run
              { p with models := freeModelName p.models hint :: p.models } = .ok (schema, p₁)
            ∧ p' = { p₁ with
                schemas := p₁.schemas ++ [(freeModelName p.models hint, schema)] }
            ∧ t = .reference (freeModelName p.models hint) := by
  simp only [Scope.hoist, Extract.bind_ok, takeModelName_ok, keep_ok, Extract.pure_ok]
  constructor
  · rintro ⟨name, p₁, ⟨rfl, rfl⟩, schema, p₂, hmodel, -, p₃, rfl, rfl, rfl⟩
    exact ⟨schema, p₂, hmodel, rfl, rfl⟩
  · rintro ⟨schema, p₂, hmodel, rfl, rfl⟩
    exact ⟨_, _, ⟨rfl, rfl⟩, schema, p₂, hmodel, (), _, rfl, rfl, rfl⟩

end ApiClientGen.Extraction
