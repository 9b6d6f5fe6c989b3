/-
Closed interfaces.

A type is closed over some names if every type in it is complete: a model has one of the
names, and an array or a map has a type for its items.  An interface is closed if all its
types are closed over the names of its schemas, and each schema stands under its own name.
Being closed over fewer names is the stronger statement, so that a type stays closed while
schemas are added.
-/
import ApiClientGen.Spec.Model
import ApiClientGen.Proofs.Document.Tables

namespace ApiClientGen.Spec

/-- A kind of types that needs neither a model nor items. -/
def TypeKind.IsPlain (kind : TypeKind) : Prop := kind ≠ .model ∧ kind ≠ .array ∧ kind ≠ .map

namespace TypeRef

/-- A type and the types of its items, on all levels. -/
def parts : TypeRef → List TypeRef
  | ⟨kind, model, none, nullable⟩ => [⟨kind, model, none, nullable⟩]
  | ⟨kind, model, some item, nullable⟩ => ⟨kind, model, some item, nullable⟩ :: parts item

/-- A model has one of the names, and an array or a map has items. -/
structure Complete (names : List String) (t : TypeRef) : Prop where
  model : t.kind = .model → ∃ name ∈ names, t.model = some name
  item : t.kind = .array ∨ t.kind = .map → t.item.isSome = true

/-- All types in a type are complete. -/
def Closed (names : List String) (t : TypeRef) : Prop := ∀ u ∈ t.parts, u.Complete names

variable {names more : List String} {t item : TypeRef}

theorem Closed.mono (h : t.Closed names) (hsub : names ⊆ more) : t.Closed more := by
  intro u hu
  refine ⟨fun hkind => ?_, (h u hu).item⟩
  obtain ⟨name, hname, heq⟩ := (h u hu).model hkind
  exact ⟨name, hsub hname, heq⟩

theorem closed_of_item_none (hcomplete : t.Complete names) (hnone : t.item = none) :
    t.Closed names := by
  obtain ⟨kind, model, item, nullable⟩ := t
  cases hnone
  intro u hu
  rw [List.mem_singleton.mp hu]
  exact hcomplete

theorem closed_of_item (hcomplete : t.Complete names) (hsome : t.item = some item)
    (hitem : item.Closed names) : t.Closed names := by
  obtain ⟨kind, model, own, nullable⟩ := t
  cases hsome
  intro u hu
  rcases List.mem_cons.mp hu with rfl | hu
  · exact hcomplete
  · exact hitem u hu

theorem closed_reference {name : String} (h : name ∈ names) : (reference name).Closed names := by
  refine closed_of_item_none ⟨fun _ => ⟨name, h, rfl⟩, fun hkind => ?_⟩ rfl
  rcases hkind with hkind | hkind <;> cases hkind

theorem closed_primitive {kind : TypeKind} (h : kind.IsPlain) (nullable : Bool) :
    (primitive kind nullable).Closed names := by
  refine closed_of_item_none ⟨fun hkind => absurd hkind h.1, fun hkind => ?_⟩ rfl
  rcases hkind with hkind | hkind
  · exact absurd hkind h.2.1
  · exact absurd hkind h.2.2

theorem closed_any : any.Closed names :=
  closed_primitive ⟨by decide, by decide, by decide⟩ false

theorem closed_arrayOf (h : item.Closed names) (nullable : Bool) :
    (arrayOf item nullable).Closed names :=
  closed_of_item ⟨(nomatch ·), fun _ => rfl⟩ rfl h

theorem closed_mapOf (h : item.Closed names) (nullable : Bool) :
    (mapOf item nullable).Closed names :=
  closed_of_item ⟨(nomatch ·), fun _ => rfl⟩ rfl h

theorem Closed.orNull (h : t.Closed names) (nullable : Bool) :
    (t.orNull nullable).Closed names := by
  unfold TypeRef.orNull
  split
  · obtain ⟨kind, model, item, flag⟩ := t
    have hhead : (⟨kind, model, item, true⟩ : TypeRef).Complete names := by
      have hown : (⟨kind, model, item, flag⟩ : TypeRef).Complete names := by
        cases item with
        | none => exact h _ (by simp [parts])
        | some item => exact h _ (by simp [parts])
      exact ⟨hown.model, hown.item⟩
    cases item with
    | none => exact closed_of_item_none hhead rfl
    | some item =>
        exact closed_of_item hhead rfl fun u hu => h u (by simp [parts, hu])
  · exact h

end TypeRef

/-- **Closed interfaces**: every type is complete, and every schema stands under its name. -/
structure ApiSpec.Closed (spec : ApiSpec) : Prop where
  types : ∀ t ∈ spec.types, t.Closed (Fields.keys spec.schemas)
  names : ∀ e ∈ spec.schemas, e.2.name = e.1

end ApiClientGen.Spec
