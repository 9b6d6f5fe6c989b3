/-
The backends by their languages.

Every language has at most one backend; a second one for the same language is refused.
-/
import ApiClientGen.Settings.Options

namespace ApiClientGen.Backend

open ApiClientGen.Settings

/-- What is registered for the languages, in the order in which it came. -/
structure Registry (α : Type) where
  entries : List (Language × α) := []

/-- Why a registry cannot be used as asked for. -/
inductive RegistryFault where
  /-- The language has a backend already. -/
  | taken (language : Language)
  /-- The language has no backend. -/
  | unregistered (language : Language)
  /-- Languages are left without a backend. -/
  | incomplete (languages : List Language)
  deriving DecidableEq, Repr

namespace RegistryFault

/-- What is wrong, in words. -/
def message : RegistryFault → String
  | taken language => "Генератор для " ++ language.name ++ " уже зарегистрирован"
  | unregistered language => "[generate] " ++ language.name ++ ": генератор не зарегистрирован"
  | incomplete languages =>
    "Нет генератора для языков: " ++ String.intercalate ", " (languages.map Language.name)

end RegistryFault

namespace Registry

variable {α β : Type}

/-- The languages with a backend. -/
def languages (r : Registry α) : List Language := r.entries.map Prod.fst

/-- What is registered for a language. -/
def find? (r : Registry α) (language : Language) : Option α := r.entries.lookup language

/-- Whether a text names a language with a backend. -/
def hasNamed (r : Registry α) (name : String) : Bool :=
  r.languages.any fun l => l.name = name

/-- The registry with one more entry. -/
def register (r : Registry α) (language : Language) (a : α) : Except RegistryFault (Registry α) :=
  if (r.find? language).isSome then .error (.taken language)
  else .ok ⟨r.entries ++ [(language, a)]⟩

/-- What is registered for a language that must have an entry. -/
def find (r : Registry α) (language : Language) : Except RegistryFault α :=
  match r.find? language with
  | some a => .ok a
  | none => .error (.unregistered language)

/-- The languages without a backend. -/
def missing (r : Registry α) : List Language :=
  Language.all.filter fun l => (r.find? l).isNone

/-- Checks that every language has a backend. -/
def verify (r : Registry α) : Except RegistryFault Unit :=
  if r.missing = [] then .ok () else .error (.incomplete r.missing)

/-- The registry with every entry changed. -/
def map (f : α → β) (r : Registry α) : Registry β := ⟨r.entries.map fun e => (e.1, f e.2)⟩

/-! ### What is registered is found -/

theorem find?_register_self {r r' : Registry α} {l : Language} {a : α}
    (h : r.register l a = .ok r') : r'.find? l = some a := by
  unfold register at h
  split at h
  · cases h
  · next hnone =>
    cases h
    have hnone : r.entries.lookup l = none := by simpa [find?] using hnone
    show (r.entries ++ [(l, a)]).lookup l = some a
    simp [List.lookup_append, hnone]

theorem register_eq_error_iff {r : Registry α} {l : Language} {a : α} {f : RegistryFault} :
    r.register l a = .error f ↔ f = .taken l ∧ (r.find? l).isSome := by
  unfold register
  split
  · next h => simp [h, eq_comm]
  · next h => simp [h]

end Registry

end ApiClientGen.Backend
