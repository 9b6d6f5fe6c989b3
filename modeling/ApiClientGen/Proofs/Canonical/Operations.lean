/-
Documents that differ in their operations.

Two documents may be the same but for some of the parameters, bodies and responses of their
operations.  How those are related is left open; the relation is carried from there up through
the operations and paths to the whole document, and through every change of documents that
changes the parts of a value one by one.
-/
import ApiClientGen.Canonical.Document
import ApiClientGen.Canonical.Schemas
import ApiClientGen.Proofs.Document.Related

namespace ApiClientGen.Canonical

open ApiClientGen.Document

/-- The same value, or two mappings with related fields. -/
inductive RelatedMappings (r : String → Value → Value → Prop) : Value → Value → Prop where
  | same (v : Value) : RelatedMappings r v v
  | fields {t u : Fields Value} (h : Fields.Related r t u) :
      RelatedMappings r (.mapping t) (.mapping u)

/-- The same value, or two lists with related items. -/
inductive RelatedLists (r : Value → Value → Prop) : Value → Value → Prop where
  | same (v : Value) : RelatedLists r v v
  | items {vs ws : List Value} (h : List.Forall₂ r vs ws) : RelatedLists r (.list vs) (.list ws)

section

variable (r : Value → Value → Prop)

/-- What differs in an operation: parameters, the body and responses. -/
def OperationField (key : String) : Value → Value → Prop :=
  if key = "parameters" then RelatedLists r
  else if key = "requestBody" then r
  else if key = "responses" then RelatedMappings fun _ => r
  else Eq

/-- What differs in a path: operations. -/
def PathField (key : String) : Value → Value → Prop :=
  if key ∈ methods then RelatedMappings (OperationField r) else Eq

/-- What differs in a document: paths. -/
def DocumentField (key : String) : Value → Value → Prop :=
  if key = "paths" then RelatedMappings fun _ => RelatedMappings (PathField r) else Eq

end

variable {r r' : Value → Value → Prop} {key : String} {v w : Value}

theorem OperationField.refl (hr : ∀ v, r v v) (key : String) (v : Value) :
    OperationField r key v v := by
  unfold OperationField
  split
  · exact .same v
  · split
    · exact hr v
    · split
      · exact .same v
      · rfl

theorem PathField.refl (r : Value → Value → Prop) (key : String) (v : Value) :
    PathField r key v v := by
  unfold PathField
  split
  · exact .same v
  · rfl

theorem DocumentField.refl (r : Value → Value → Prop) (key : String) (v : Value) :
    DocumentField r key v v := by
  unfold DocumentField
  split
  · exact .same v
  · rfl

theorem DocumentField.eq (hkey : key ≠ "paths") (h : DocumentField r key v w) : v = w := by
  rwa [DocumentField, if_neg hkey] at h

/-! ### Changing documents part by part -/

/-- **A change of values that changes their parts one by one**, each by the key that it is under. -/
structure ByParts (change : String → Value → Value) : Prop where
  mapping : ∀ key t, change key (.mapping t)
    = .mapping (Fields.ofEntries (t.map fun e => (e.1, change e.1 e.2)))
  list : ∀ key vs, change key (.list vs) = .list (vs.map (change ""))

namespace ByParts

variable {change : String → Value → Value} (hchange : ByParts change)

include hchange

theorem relatedMappings {r r' : String → Value → Value → Prop}
    (hr : ∀ key v w, r key v w → r' key (change key v) (change key w))
    (h : RelatedMappings r v w) (key : String) :
    RelatedMappings r' (change key v) (change key w) := by
  cases h with
  | same v => exact .same _
  | fields h =>
      rw [hchange.mapping, hchange.mapping]
      exact .fields (h.map hr).ofEntries

theorem relatedLists (hr : ∀ key v w, r v w → r' (change key v) (change key w))
    (h : RelatedLists r v w) (key : String) : RelatedLists r' (change key v) (change key w) := by
  cases h with
  | same v => exact .same _
  | items h =>
      rw [hchange.list, hchange.list]
      exact .items (List.forall₂_map_left_iff.mpr
        (List.forall₂_map_right_iff.mpr (h.imp fun _ _ hvw => hr "" _ _ hvw)))

variable (hr : ∀ key v w, r v w → r' (change key v) (change key w))

include hr

theorem operationField (h : OperationField r key v w) :
    OperationField r' key (change key v) (change key w) := by
  unfold OperationField at h ⊢
  split
  · rename_i hkey
    rw [if_pos hkey] at h
    exact hchange.relatedLists hr h key
  · rename_i hparameters
    rw [if_neg hparameters] at h
    split
    · rename_i hkey
      rw [if_pos hkey] at h
      exact hr key v w h
    · rename_i hbody
      rw [if_neg hbody] at h
      split
      · rename_i hkey
        rw [if_pos hkey] at h
        exact hchange.relatedMappings hr h key
      · rename_i hresponses
        rw [if_neg hresponses] at h
        rw [h]

theorem pathField (h : PathField r key v w) : PathField r' key (change key v) (change key w) := by
  unfold PathField at h ⊢
  split
  · rename_i hkey
    rw [if_pos hkey] at h
    exact hchange.relatedMappings (fun _ _ _ => hchange.operationField hr) h key
  · rename_i hkey
    rw [if_neg hkey] at h
    rw [h]

/-- **What differs in the paths of two documents differs in the changed paths.** -/
theorem paths (h : RelatedMappings (fun _ => RelatedMappings (PathField r)) v w) (key : String) :
    RelatedMappings (fun _ => RelatedMappings (PathField r')) (change key v) (change key w) :=
  hchange.relatedMappings
    (fun key _ _ hitem => hchange.relatedMappings (fun _ _ _ => hchange.pathField hr) hitem key) h key

end ByParts

/-- A canonical form, and the same one with other paths. -/
theorem related_fields {R : String → Value → Value → Prop} (hrefl : ∀ key v, R key v v)
    {d : CanonicalDocument} {paths : Fields Value}
    (h : R "paths" (.mapping d.paths) (.mapping paths)) :
    Fields.Related R d.fields { d with paths }.fields := by
  have hfixed : Fields.Related R d.fixedFields { d with paths }.fixedFields :=
    (((((Fields.Related.cons (hrefl _ _) (.cons (hrefl _ _) (.cons h .nil))).append
      (.refl hrefl _)).append (.refl hrefl _)).append (.refl hrefl _)).append (.refl hrefl _)).append
      (.refl hrefl _)
  exact hfixed.update (.refl hrefl _)

end ApiClientGen.Canonical
