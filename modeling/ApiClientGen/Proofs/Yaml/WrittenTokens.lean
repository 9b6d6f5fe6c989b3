/-
The tokens of JSON text.

The text of a portable collection is cut into the tokens that its value calls for: brackets and
commas, every text as a quoted scalar, every other scalar as a plain one, and the marks of keys
and values around every key.
-/
import ApiClientGen.Proofs.Json.ReadBack
import ApiClientGen.Proofs.Yaml.FlowSteps

namespace ApiClientGen.Yaml

open ApiClientGen.Document ApiClientGen.Json ApiClientGen.Number

/-! ### Tokens of values -/

/-- The token of a scalar: a text stands between quotes. -/
def scalarToken : Scalar → Token
  | .string text => .scalar text .quoted
  | s => .scalar (String.ofList (scalarWord s)) .plain

mutual

/-- The tokens of a value. -/
def valueTokens : Value → List Token
  | .scalar s => [scalarToken s]
  | .list items => .flowSequenceStart :: (itemTokens items ++ [.flowSequenceEnd])
  | .mapping fields => .flowMappingStart :: (fieldTokens fields ++ [.flowMappingEnd])

/-- The tokens of the items of a list. -/
def itemTokens : List Value → List Token
  | [] => []
  | v :: rest => valueTokens v ++ moreItemTokens rest

/-- The tokens of further items of a list. -/
def moreItemTokens : List Value → List Token
  | [] => []
  | v :: rest => .flowEntry :: (valueTokens v ++ moreItemTokens rest)

/-- The tokens of the fields of a mapping. -/
def fieldTokens : List (String × Value) → List Token
  | [] => []
  | (k, v) :: rest => [.key, .scalar k .quoted, .value] ++ (valueTokens v ++ moreFieldTokens rest)

/-- The tokens of further fields of a mapping. -/
def moreFieldTokens : List (String × Value) → List Token
  | [] => []
  | (k, v) :: rest =>
    [.flowEntry, .key, .scalar k .quoted, .value] ++ (valueTokens v ++ moreFieldTokens rest)

end

/-! ### Scanning a value -/

/-- A scalar inside brackets is one token. -/
theorem Scanner.Quiet.scans_scalar {s : Scanner} {rest : List Char} (hs : s.Quiet)
    (hflow : 0 < s.flow) (n : Nat) {x : Scalar} (hx : IsPortableScalar x) (hend : IsFlowEnd rest)
    (hrest : s.cursor.rest = List.replicate n ' ' ++ (scalarWord x ++ rest)) :
    ∃ t, s.Scans (n + (scalarWord x).length) [scalarToken x] s.flow t := by
  rcases text_or_bareWord hx with ⟨text, rfl, htext⟩ | ⟨hnone, hbare⟩
  · exact hs.scans_quoted n htext hrest
  · rw [scalarToken.eq_2 x hnone]
    exact hs.scans_word hflow n hbare hend hrest

theorem isFlowEnd_moreItems (vs : List Value) (rest : List Char) :
    IsFlowEnd (moreItems vs ++ ']' :: rest) := by
  cases vs with
  | nil => exact ⟨']', rest, rfl, by decide⟩
  | cons v vs => exact ⟨',', _, rfl, by decide⟩

theorem isFlowEnd_moreFields (fs : List (String × Value)) (rest : List Char) :
    IsFlowEnd (moreFields fs ++ '\x7d' :: rest) := by
  cases fs with
  | nil => exact ⟨'\x7d', rest, rfl, by decide⟩
  | cons e fs => exact ⟨',', _, rfl, by decide⟩

mutual

/-- **The text of a value** inside brackets is cut into the tokens of the value. -/
theorem scans_value : (v : Value) → IsPortable v → ∀ {s : Scanner} {rest : List Char} (n : Nat),
    s.Quiet → (0 < s.flow ∧ IsFlowEnd rest) ∨ (∀ x, v ≠ .scalar x) →
    s.cursor.rest = List.replicate n ' ' ++ (written v ++ rest) →
    ∃ t, s.Scans (n + (written v).length) (valueTokens v) s.flow t
  | .scalar x, hv, s, rest, n, hs, hplace, hrest => by
      cases hv with
      | scalar hx =>
          obtain ⟨hflow, hend⟩ := hplace.resolve_right fun h => h x rfl
          exact hs.scans_scalar hflow n hx hend hrest
  | .list vs, hv, s, rest, n, hs, _, hrest => by
      cases hv with
      | list hvs =>
          rw [written, List.cons_append, List.append_assoc, List.cons_append, List.nil_append] at hrest
          have hopen : ('[', Token.flowSequenceStart) ∈ Scanner.openBrackets := by decide
          have hclose : (']', Token.flowSequenceEnd) ∈ Scanner.closeBrackets := by decide
          obtain ⟨t, ht⟩ := hs.scans_brackets n hopen hclose hrest
            fun ht hflow _ hinner => by
              obtain ⟨u, hu⟩ := scans_items vs hvs 0 (fun _ => rfl) ht hflow hinner
              exact ⟨u, hu.of_eq (Nat.zero_add _) rfl rfl⟩
          exact ⟨t, ht.of_eq (by simp [written]) rfl rfl⟩
  | .mapping fs, hv, s, rest, n, hs, _, hrest => by
      cases hv with
      | mapping _ hbasic hshort hvs =>
          rw [written, List.cons_append, List.append_assoc, List.cons_append, List.nil_append] at hrest
          have hopen : ('\x7b', Token.flowMappingStart) ∈ Scanner.openBrackets := by decide
          have hclose : ('\x7d', Token.flowMappingEnd) ∈ Scanner.closeBrackets := by decide
          obtain ⟨t, ht⟩ := hs.scans_brackets n hopen hclose hrest
            fun ht hflow hallowed hinner => by
              obtain ⟨u, hu⟩ :=
                scans_fields fs hbasic hshort hvs 0 (fun _ => rfl) ht hflow hallowed hinner
              exact ⟨u, hu.of_eq (Nat.zero_add _) rfl rfl⟩
          exact ⟨t, ht.of_eq (by simp [written]) rfl rfl⟩

theorem scans_items : (vs : List Value) → (∀ v ∈ vs, IsPortable v) →
    ∀ {s : Scanner} {rest : List Char} (n : Nat), (vs = [] → n = 0) → s.Quiet → 0 < s.flow →
    s.cursor.rest = List.replicate n ' ' ++ (writtenItems vs ++ ']' :: rest) →
    ∃ t, s.Scans (n + (writtenItems vs).length) (itemTokens vs) s.flow t
  | [], _, s, _, n, hn, hs, _, _ => by
      obtain rfl := hn rfl
      exact ⟨s, hs.scans⟩
  | v :: vs, hvs, s, rest, n, _, hs, hflow, hrest => by
      obtain ⟨hv, hvs⟩ := List.forall_mem_cons.mp hvs
      rw [writtenItems, List.append_assoc] at hrest
      obtain ⟨t, ht⟩ := scans_value v hv n hs (Or.inl ⟨hflow, isFlowEnd_moreItems vs rest⟩) hrest
      have hmore : t.cursor.rest = moreItems vs ++ ']' :: rest :=
        ht.cursor_rest (w := List.replicate n ' ' ++ written v) (by simp)
          (by rw [hrest, List.append_assoc])
      cases vs with
      | nil =>
          refine ⟨t, ht.of_eq ?_ ?_ rfl⟩
          · simp [writtenItems, moreItems]
          · simp [itemTokens, moreItemTokens]
      | cons second vs =>
          obtain ⟨u, hu, -⟩ := ht.quiet.scans_comma hmore
          have hnext := hu.cursor_rest (w := [',']) rfl hmore
          have huflow : 0 < u.flow := by rw [hu.flow, ht.flow]; exact hflow
          obtain ⟨e, he⟩ := scans_items (second :: vs) hvs 1 nofun hu.quiet huflow hnext
          refine ⟨e, ((ht.trans hu).trans he).of_eq ?_ ?_ ?_⟩
          · simp [writtenItems, moreItems]
            omega
          · simp [itemTokens, moreItemTokens]
          · rw [hu.flow, ht.flow]

theorem scans_fields : (fs : List (String × Value)) → (∀ e ∈ fs, IsBasic e.1) →
    (∀ e ∈ fs, (quoted e.1).length ≤ 1024) → (∀ e ∈ fs, IsPortable e.2) →
    ∀ {s : Scanner} {rest : List Char} (n : Nat), (fs = [] → n = 0) → s.Quiet → 0 < s.flow →
    s.keyAllowed = true →
    s.cursor.rest = List.replicate n ' ' ++ (writtenFields fs ++ '\x7d' :: rest) →
    ∃ t, s.Scans (n + (writtenFields fs).length) (fieldTokens fs) s.flow t
  | [], _, _, _, s, _, n, hn, hs, _, _, _ => by
      obtain rfl := hn rfl
      exact ⟨s, hs.scans⟩
  | (k, v) :: fs, hbasic, hshort, hvs, s, rest, n, _, hs, hflow, hallowed, hrest => by
      obtain ⟨hk, hbasic⟩ := List.forall_mem_cons.mp hbasic
      obtain ⟨hkey, hshort⟩ := List.forall_mem_cons.mp hshort
      obtain ⟨hv, hvs⟩ := List.forall_mem_cons.mp hvs
      rw [writtenFields, List.append_assoc, List.cons_append, List.cons_append,
        List.append_assoc] at hrest
      obtain ⟨t, ht⟩ := hs.scans_key hflow hallowed n hk hkey hrest
      have hvalue : t.cursor.rest
          = List.replicate 1 ' ' ++ (written v ++ (moreFields fs ++ '\x7d' :: rest)) :=
        ht.cursor_rest (w := List.replicate n ' ' ++ (quoted k ++ [':'])) (by simp; omega)
          (by rw [hrest]; simp)
      have htflow : 0 < t.flow := by rw [ht.flow]; exact hflow
      obtain ⟨u, hu⟩ := scans_value v hv 1 ht.quiet
        (Or.inl ⟨htflow, isFlowEnd_moreFields fs rest⟩) hvalue
      have hmore : u.cursor.rest = moreFields fs ++ '\x7d' :: rest :=
        hu.cursor_rest (w := ' ' :: written v) (Nat.add_comm _ 1) hvalue
      have hfield := ht.trans hu
      cases fs with
      | nil =>
          refine ⟨u, hfield.of_eq ?_ ?_ ht.flow⟩
          · simp [writtenFields, moreFields]
            omega
          · simp [fieldTokens, moreFieldTokens]
      | cons second fs =>
          obtain ⟨e, he, hallowed'⟩ := hu.quiet.scans_comma hmore
          have hnext := he.cursor_rest (w := [',']) rfl hmore
          have heflow : 0 < e.flow := by rw [he.flow, hu.flow]; exact htflow
          obtain ⟨last, hlast⟩ := scans_fields (second :: fs) hbasic hshort hvs 1 nofun he.quiet
            heflow hallowed' hnext
          refine ⟨last, ((hfield.trans he).trans hlast).of_eq ?_ ?_ ?_⟩
          · simp [writtenFields, moreFields]
            omega
          · simp [fieldTokens, moreFieldTokens]
          · rw [he.flow, hu.flow, ht.flow]

end

/-! ### The whole text -/

theorem isAllowed_of_isPrintable {c : Char} (hc : IsPrintable c) : isAllowed c = true :=
  of_ascii (P := fun c => IsPrintable c → isAllowed c = true) (by decide)
    (Nat.lt_trans hc.2 (by decide)) hc

/-- **The text of a portable collection** is cut into the tokens of its value. -/
theorem tokens_written {v : Value} (hv : IsPortable v) (hcollection : ∀ x, v ≠ .scalar x) :
    tokens (written v) = valueTokens v ++ [.streamEnd] := by
  have hstart : Scanner.Quiet { cursor := { rest := written v }, size := (written v).length } :=
    ⟨rfl, rfl, nofun⟩
  have hrest : written v = written v ++ [] := (List.append_nil _).symm
  obtain ⟨t, ht⟩ := scans_value v hv 0 hstart (Or.inr hcollection) hrest
  have hend := ht.cursor_rest (Nat.zero_add _).symm hrest
  obtain ⟨steps, hsteps, hrun⟩ := ht.leads
  have hfuel : (written v).length + 2 = ((written v).length - steps) + 1 + 1 + steps := by omega
  unfold tokens
  rw [if_pos (List.all_eq_true.mpr fun c hc => isAllowed_of_isPrintable (isPrintable_written hv c hc)),
    hfuel, hrun, ht.quiet.run_end hend, ht.written]
  simp

end ApiClientGen.Yaml
