/-
Where the two versions that are read alike agree.

Version 3.1 adds to version 3.0 what its schemas may say, and webhooks.  A description whose
schemas say nothing of that kind comes into the same canonical form as either version: going
through all schemas finds nothing to change, at any place and in values of any kind, and the
only thing that is done beside it is keeping the webhooks among the extensions.
-/
import ApiClientGen.Proofs.Canonical.ByKind

namespace ApiClientGen.Canonical

open ApiClientGen.Document ApiClientGen.Source

/-- Among distinct keys the extensions are the fields with the key of one. -/
theorem extensions_eq_filter {t : Fields Value} (hnodup : (Fields.keys t).Nodup) :
    extensions t = t.filter fun e => isExtension e.1 :=
  Fields.ofEntries_eq_self (Fields.nodup_keys_filter hnodup _)

/-- An extension that is written among distinct keys is written among the extensions. -/
theorem extensions_set_of_isExtension {t : Fields Value} (hnodup : (Fields.keys t).Nodup)
    {key : String} (hkey : isExtension key = true) (v : Value) :
    extensions (Fields.set t key v) = Fields.set (extensions t) key v := by
  rw [extensions_eq_filter (Fields.nodup_keys_set hnodup key v), extensions_eq_filter hnodup]
  clear hnodup
  induction t with
  | nil => simp [Fields.set, hkey]
  | cons e t ih =>
      obtain ⟨k, w⟩ := e
      by_cases hk : k = key
      · subst hk
        simp [Fields.set, hkey]
      · by_cases hext : isExtension k = true <;> simp [Fields.set, hk, hext, ih]

namespace CanonicalDocument

/-- A canonical form with webhooks that are there as one more extension. -/
def withWebhooks (d : CanonicalDocument) : Option Value → CanonicalDocument
  | none => d
  | some .null => d
  | some webhooks => { d with extensions := Fields.set d.extensions "x-webhooks" webhooks }

/-- Webhooks that are kept change nothing in a canonical form but its extensions. -/
theorem ofFields_keepWebhooks {fields : Fields Value} (hnodup : (Fields.keys fields).Nodup) :
    ofFields (keepWebhooks fields) = (ofFields fields).withWebhooks (Fields.get? fields "webhooks") := by
  have hset : ∀ webhooks, ofFields (Fields.set fields "x-webhooks" webhooks)
      = { ofFields fields with
          extensions := Fields.set (ofFields fields).extensions "x-webhooks" webhooks } := by
    intro webhooks
    have hget : ∀ key ∈ fixedKeys, Fields.get? (Fields.set fields "x-webhooks" webhooks) key
        = Fields.get? fields key := by
      intro key hkey
      refine Fields.get?_set_of_ne fields webhooks fun heq => ?_
      exact absurd (not_isExtension_of_mem_fixedKeys key hkey) (heq ▸ by decide)
    unfold ofFields
    dsimp only
    rw [extensions_set_of_isExtension hnodup (by decide),
      Fields.fieldsAt_congr (hget "info" (by decide)),
      Fields.fieldsAt_congr (hget "paths" (by decide)),
      Fields.fieldsAt_congr (hget "components" (by decide)),
      Fields.itemsAt_congr (hget "servers" (by decide)),
      Fields.itemsAt_congr (hget "security" (by decide)),
      Fields.itemsAt_congr (hget "tags" (by decide)), hget "externalDocs" (by decide)]
  unfold keepWebhooks withWebhooks
  cases Fields.get? fields "webhooks" with
  | none => rfl
  | some webhooks =>
      cases webhooks with
      | scalar s =>
          cases s with
          | null => rfl
          | _ => exact hset _
      | list items => exact hset _
      | mapping table => exact hset _

/-- Webhooks that are kept are found under their own key only. -/
theorem get?_fields_withWebhooks {d : CanonicalDocument} (h : d.IsSorted) (webhooks : Option Value)
    {key : String} (hkey : key ≠ "x-webhooks") :
    Fields.get? (d.withWebhooks webhooks).fields key = Fields.get? d.fields key := by
  unfold withWebhooks
  split
  · rfl
  · rfl
  · rename_i webhooks _
    have hsorted :
        IsSorted { d with extensions := Fields.set d.extensions "x-webhooks" webhooks } := by
      refine ⟨Fields.nodup_keys_set h.nodup _ _, fun k hk => ?_⟩
      rcases Fields.mem_keys_set.mp hk with rfl | hk
      · decide
      · exact h.extension k hk
    rw [fields_eq_append hsorted, fields_eq_append h, Fields.get?_append, Fields.get?_append,
      Fields.get?_set_of_ne _ _ (Ne.symm hkey)]
    rfl

end CanonicalDocument

/-- In the canonical form of version 3.1, every part is that of version 3.0 with its schemas changed. -/
theorem get?_fields_upgrade_openapi31 {content : Fields Value} (hnodup : (Fields.keys content).Nodup)
    {key : String} (hkey : key ≠ "x-webhooks") :
    Fields.get? (upgrade ⟨.openapi31, content⟩).fields key
      = (Fields.get? (upgrade ⟨.openapi30, content⟩).fields key).map
        (mapAt downgradeSchema (Kind.document.under key)) := by
  have hnodup : (Fields.keys (mapDocument downgradeSchema content)).Nodup := by
    rwa [mapDocument_eq_map, Fields.keys_map fun key => mapAt downgradeSchema _]
  show Fields.get? (CanonicalDocument.ofFields (keepWebhooks _)).fields key = _
  rw [CanonicalDocument.ofFields_keepWebhooks hnodup,
    CanonicalDocument.get?_fields_withWebhooks (CanonicalDocument.isSorted_ofFields _) _ hkey,
    CanonicalDocument.fields_ofFields_mapDocument,
    Fields.get?_map fun key => mapAt downgradeSchema (Kind.document.under key)]
  rfl

/--
**Version 3.1 only adds to version 3.0.**  A description whose schemas are all in normal form has
the same canonical form in both versions, apart from the webhooks, which version 3.1 keeps.
-/
theorem upgrade_openapi31_of_isNormal {content : Fields Value}
    (hnodup : (Fields.keys content).Nodup) (hnormal : ∀ s ∈ documentSchemas content, IsNormal s) :
    upgrade ⟨.openapi31, content⟩
      = (upgrade ⟨.openapi30, content⟩).withWebhooks (Fields.get? content "webhooks") := by
  calc upgrade ⟨.openapi31, content⟩
      = .ofFields (keepWebhooks content) := by
        rw [upgrade, CanonicalDocument.ofOpenapi31, mapDocument_eq_self_of_isNormal hnormal]
    _ = (CanonicalDocument.ofFields content).withWebhooks (Fields.get? content "webhooks") :=
        CanonicalDocument.ofFields_keepWebhooks hnodup

/--
A description whose schemas have nothing of version 3.1, among them one of the wrong kind, with
webhooks and with an extension that has their name.
-/
def hookedContent : Fields Value :=
  [("openapi", .string "3.1.0"),
    ("x-webhooks", .string "none"),
    ("paths", .mapping
      [("/pets", .mapping
        [("parameters", .list [.string "limit"]),
          ("get", .mapping [("responses", .list [])])])]),
    ("components", .mapping
      [("schemas", .mapping
        [("Pet", .mapping
          [("properties", .mapping
            [("tag", .mapping [("type", .string "string"), ("exclusiveMinimum", .bool true)])])]),
          ("Kind", .int 3)])]),
    ("webhooks", .mapping [("newPet", .mapping [("post", .mapping [])])])]

theorem upgrade_hookedContent :
    (Fields.keys hookedContent).Nodup ∧ (∀ s ∈ documentSchemas hookedContent, IsNormal s)
      ∧ upgrade ⟨.openapi31, hookedContent⟩
        = (upgrade ⟨.openapi30, hookedContent⟩).withWebhooks
          (some (.mapping [("newPet", .mapping [("post", .mapping [])])])) := by
  have hnodup : (Fields.keys hookedContent).Nodup := by decide
  have hnormal : ∀ s ∈ documentSchemas hookedContent, IsNormal s := by
    intro s hs
    have hschemas : documentSchemas hookedContent
        = [[("properties", .mapping
            [("tag", .mapping [("type", .string "string"), ("exclusiveMinimum", .bool true)])])],
          [("type", .string "string"), ("exclusiveMinimum", .bool true)]] := by decide
    rw [hschemas] at hs
    simp only [List.mem_cons, List.not_mem_nil, or_false] at hs
    rcases hs with rfl | rfl
    · exact ⟨by simp [Fields.get?], by decide, by decide, by simp [Fields.get?],
        by simp [Fields.get?], by simp [Fields.get?]⟩
    · refine ⟨by simp [Fields.get?], by decide, by decide, by simp [Fields.get?], ?_,
        by simp [Fields.get?]⟩
      intro bound hbound
      simp only [Fields.get?, ↓reduceIte, String.reduceEq, Option.some.injEq] at hbound
      subst hbound
      rfl
  exact ⟨hnodup, hnormal, upgrade_openapi31_of_isNormal hnodup hnormal⟩

end ApiClientGen.Canonical
