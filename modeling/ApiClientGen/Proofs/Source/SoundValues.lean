/-
Values as documents hold them.

A fractional number that is read is the one of the format that is nearest to what was written, also
after it was put together from parts; and where keys become texts, those with the same text become
one.  So every fractional number in a document is a number of the format, and no key of a mapping
comes twice.
-/
import ApiClientGen.Proofs.Document.Outcomes
import ApiClientGen.Proofs.Document.Tables
import ApiClientGen.Proofs.Number.Rounding
import ApiClientGen.Source.Reading

namespace ApiClientGen.Document

open ApiClientGen.Number

/-- A scalar as documents hold it: a fractional number is a number of the format. -/
def IsSoundScalar : Scalar → Prop
  | .float x => x.IsNumber
  | _ => True

/-- A value as documents hold it: its scalars are sound, and no key of a mapping comes twice. -/
inductive IsSound : Value → Prop where
  | scalar {s : Scalar} (h : IsSoundScalar s) : IsSound (.scalar s)
  | list {items : List Value} (h : ∀ v ∈ items, IsSound v) : IsSound (.list items)
  | mapping {fields : List (String × Value)} (hkeys : (Fields.keys fields).Nodup)
      (h : ∀ e ∈ fields, IsSound e.2) : IsSound (.mapping fields)

/-- A value as it is read, with keys of any kind, has sound scalars. -/
inductive IsSoundRaw : RawValue → Prop where
  | scalar {s : Scalar} (h : IsSoundScalar s) : IsSoundRaw (.scalar s)
  | list {items : List RawValue} (h : ∀ v ∈ items, IsSoundRaw v) : IsSoundRaw (.list items)
  | mapping {entries : List (Scalar × RawValue)} (h : ∀ e ∈ entries, IsSoundRaw e.2) :
      IsSoundRaw (.mapping entries)

/-! ### Keys become texts -/

mutual

/-- When keys become texts, no key comes twice, and the scalars are those that were read. -/
theorem isSound_plain : {v : RawValue} → IsSoundRaw v → ∀ depth,
    Ends IsSound (fun _ => True) (v.plain depth)
  | .scalar s, h, depth => by
      cases h with
      | scalar hs => exact Ends.ite trivial (.scalar hs)
  | .list items, h, depth => by
      cases h with
      | list hitems => exact Ends.ite trivial ((isSound_plainItems hitems (depth + 1)).map fun _ => .list)
  | .mapping entries, h, depth => by
      cases h with
      | mapping hentries =>
          refine Ends.ite trivial ((isSound_plainEntries hentries (depth + 1)).map fun fields hfields => ?_)
          exact .mapping (Fields.nodup_keys_ofEntries fields) fun e he =>
            hfields e (Fields.mem_ofEntries he)

theorem isSound_plainItems : {items : List RawValue} → (∀ v ∈ items, IsSoundRaw v) → ∀ depth,
    Ends (fun vs => ∀ v ∈ vs, IsSound v) (fun _ => True) (plainItems depth items)
  | [], _, _ => nofun
  | v :: rest, h, depth => by
      obtain ⟨hv, hrest⟩ := List.forall_mem_cons.mp h
      refine (isSound_plain hv depth).bind fun w hw => ?_
      exact (isSound_plainItems hrest depth).map fun ws hws => List.forall_mem_cons.mpr ⟨hw, hws⟩

theorem isSound_plainEntries : {entries : List (Scalar × RawValue)} →
    (∀ e ∈ entries, IsSoundRaw e.2) → ∀ depth,
    Ends (fun fs => ∀ e ∈ fs, IsSound e.2) (fun _ => True) (plainEntries depth entries)
  | [], _, _ => nofun
  | (k, v) :: rest, h, depth => by
      obtain ⟨hv, hrest⟩ := List.forall_mem_cons.mp h
      refine (Ends.any _).bind fun text _ => (isSound_plain hv depth).bind fun w hw => ?_
      exact (isSound_plainEntries hrest depth).map fun fs hfs => List.forall_mem_cons.mpr ⟨hw, hfs⟩

end

theorem rawItems_eq_map (items : List Value) : rawItems items = items.map Value.raw := by
  induction items with
  | nil => rfl
  | cons v rest ih => exact congrArg (v.raw :: ·) ih

theorem rawEntries_eq_map (fields : List (String × Value)) :
    rawEntries fields = fields.map fun e => (.string e.1, e.2.raw) := by
  induction fields with
  | nil => rfl
  | cons e rest ih => exact congrArg ((.string e.1, e.2.raw) :: ·) ih

/-- A value of a document counts as one that was read. -/
theorem isSoundRaw_raw {v : Value} (hv : IsSound v) : IsSoundRaw v.raw := by
  induction hv with
  | scalar h => exact .scalar h
  | @list items _ ih =>
      refine .list ?_
      rw [rawItems_eq_map, List.forall_mem_map]
      exact ih
  | @mapping fields _ _ ih =>
      refine .mapping ?_
      rw [rawEntries_eq_map, List.forall_mem_map]
      exact ih

end ApiClientGen.Document

namespace ApiClientGen.Json

open ApiClientGen.Document ApiClientGen.Number

/-! ### What is read from JSON -/

theorem number_sound (s : List Char) : Ends (fun r => IsSound r.1) (fun _ => True) (number s) := by
  unfold number
  dsimp only
  refine Ends.ite trivial (Ends.ite ?_ (.scalar (Binary64.isNumber_ofDecimal ..)))
  split
  · exact .scalar trivial
  · exact trivial

theorem leaf_sound (s : List Char) : Ends (fun r => IsSound r.1) (fun _ => True) (leaf s) := by
  unfold leaf
  split
  · exact (Ends.any _).bind fun _ _ => .scalar trivial
  split
  next found hfound =>
    obtain ⟨w, hw, hfound⟩ := List.exists_of_findSome?_eq_some hfound
    obtain ⟨rest, -, rfl⟩ := Option.map_eq_some_iff.mp hfound
    have hwords : ∀ w ∈ wordValues, IsSound w.2 := by
      simp only [wordValues, List.forall_mem_cons]
      exact ⟨.scalar trivial, .scalar trivial, .scalar trivial, .scalar .nan, .scalar (.infinite _),
        .scalar (.infinite _), nofun⟩
    exact hwords w hw
  next => exact number_sound s

section

variable {value : List Char → Except Fault (Value × List Char)}

theorem items_sound (hvalue : ∀ s, Ends (fun r => IsSound r.1) (fun _ => True) (value s))
    (done : List Value) (s : List Char) (hdone : ∀ v ∈ done, IsSound v) :
    Ends (fun r => IsSound r.1) (fun _ => True) (items value done s) := by
  induction done, s using items.induct with
  | case1 done s ih =>
      rw [items]
      refine (hvalue s).bind fun r hv => ?_
      obtain ⟨v, afterValue⟩ := r
      have hmore : ∀ w ∈ v :: done, IsSound w := List.forall_mem_cons.mpr ⟨hv, hdone⟩
      dsimp only
      split
      · exact .list fun w hw => hmore w (List.mem_reverse.mp hw)
      next rest _ =>
        by_cases hshort : (skipSpaces rest).length < s.length
        · rw [if_pos hshort]
          exact ih v rest hshort hmore
        · rw [if_neg hshort]
          trivial
      · trivial

theorem fields_sound (hvalue : ∀ s, Ends (fun r => IsSound r.1) (fun _ => True) (value s))
    (done : Fields Value) (s : List Char) (hkeys : (Fields.keys done).Nodup)
    (hdone : ∀ e ∈ done, IsSound e.2) :
    Ends (fun r => IsSound r.1) (fun _ => True) (fields value done s) := by
  induction done, s using fields.induct with
  | case1 done rest ih =>
      rw [fields]
      refine (Ends.any _).bind fun r _ => ?_
      obtain ⟨key, afterKey⟩ := r
      dsimp only
      split
      next afterColon _ =>
        refine (hvalue (skipSpaces afterColon)).bind fun r hv => ?_
        obtain ⟨v, afterValue⟩ := r
        have hmore : ∀ e ∈ done.set key v, IsSound e.2 := by
          intro e he
          rcases Fields.mem_set he with rfl | he
          · exact hv
          · exact hdone e he
        have hkeys' := Fields.nodup_keys_set hkeys key v
        dsimp only
        split
        · exact .mapping hkeys' hmore
        next more _ =>
          by_cases hshort : (skipSpaces more).length < rest.length
          · rw [if_pos hshort]
            exact ih key v more hshort hkeys' hmore
          · rw [if_neg hshort]
            trivial
        · trivial
      · trivial
  | case2 done s hquote =>
      rw [fields]
      · trivial
      · exact hquote

end

theorem value_sound (level : Nat) (s : List Char) :
    Ends (fun r => IsSound r.1) (fun _ => True) (value level s) := by
  induction level generalizing s with
  | zero =>
      unfold value
      split
      all_goals first | trivial | contradiction | exact leaf_sound _
  | succ level ih =>
      unfold value
      split
      case h_3 level' rest heq =>
        cases heq
        split
        · exact .list nofun
        · exact items_sound ih [] _ nofun
      case h_4 level' rest heq =>
        cases heq
        split
        · exact .mapping List.nodup_nil nofun
        · exact fields_sound ih [] _ List.nodup_nil nofun
      all_goals first | contradiction | exact leaf_sound _

/-- A JSON text has a sound value. -/
theorem read_sound (text : String) : Ends IsSound (fun _ => True) (read text) :=
  (value_sound levelLimit _).bind fun _ hv => Ends.ite hv trivial

end ApiClientGen.Json

namespace ApiClientGen.Yaml

open ApiClientGen.Document ApiClientGen.Number

/-! ### What is read from YAML -/

theorem sexagesimalSum_sound (base : Nat) {parts : List Binary64} (hparts : ∀ x ∈ parts, x.IsNumber)
    {total : Binary64} (htotal : total.IsNumber) :
    Ends Binary64.IsNumber (fun _ => True) (sexagesimalSum base parts total) := by
  induction parts generalizing base total with
  | nil => exact htotal
  | cons d rest ih =>
      obtain ⟨hd, hrest⟩ := List.forall_mem_cons.mp hparts
      rw [sexagesimalSum]
      exact Ends.ite trivial
        (ih (base * 60) hrest (Binary64.isNumber_add htotal (Binary64.isNumber_mulNat hd base)))

theorem fractionOf_sound (s : List Char) : Ends Binary64.IsNumber (fun _ => True) (fractionOf s) := by
  unfold fractionOf
  split
  next x hx => exact Binary64.isNumber_readFraction? hx
  next => trivial

theorem fraction_sound (s : List Char) : Ends Binary64.IsNumber (fun _ => True) (fraction s) := by
  have hsigned : ∀ (negative : Bool) (x : Binary64), x.IsNumber →
      (if negative then x.neg else x).IsNumber := by
    intro negative x hx
    split
    · exact Binary64.isNumber_neg hx
    · exact hx
  unfold fraction
  dsimp only
  split
  · trivial
  refine Ends.ite (.infinite _) (Ends.ite .nan (Ends.ite ?_ ?_))
  · refine (Ends.mapM fun part _ => fractionOf_sound part).bind fun parts hparts => ?_
    refine (sexagesimalSum_sound 1 (fun x hx => hparts.2 x (List.mem_reverse.mp hx))
      (.finite false Binary64.isUnits_zero)).bind fun x hx => ?_
    exact hsigned _ x hx
  · exact (fractionOf_sound _).bind fun x hx => hsigned _ x hx

/-- A timestamp is a date or a moment. -/
theorem timestamp_sound (s : List Char) : Ends IsSoundScalar (fun _ => True) (timestamp s) := by
  unfold timestamp
  dsimp only
  split
  · trivial
  refine Ends.mapError (F := fun _ => True) ?_ fun _ _ => trivial
  split
  · exact (Ends.any _).bind fun _ _ => trivial
  split
  · exact Ends.ite trivial ((Ends.any _).bind fun _ _ => (Ends.any _).bind fun _ _ => trivial)
  · exact (Ends.any _).bind fun _ _ => (Ends.any _).bind fun _ _ => trivial

theorem scalarOf_sound (kind : Kind) (text : String) :
    Ends IsSoundScalar (fun _ => True) (scalarOf kind text) := by
  unfold scalarOf
  dsimp only
  split
  · trivial
  · exact (Ends.any _).map fun _ _ => trivial
  · exact (Ends.any _).map fun _ _ => trivial
  · exact (fraction_sound _).map fun _ hx => hx
  · exact timestamp_sound _
  · exact Ends.ite ((Ends.any _).map fun _ _ => trivial) trivial
  all_goals trivial

namespace Tree

variable (t : Tree)

theorem scalar?_sound (n : Node) :
    Ends (fun found => ∀ s ∈ found, IsSoundScalar s) (fun _ => True) (t.scalar? n) := by
  have hsome : ∀ kind text,
      Ends (fun found => ∀ s ∈ found, IsSoundScalar s) (fun _ => True)
        (return some (← scalarOf kind text) : Except Fault (Option Scalar)) :=
    fun kind text => (scalarOf_sound kind text).map fun s hs => by simpa using hs
  unfold scalar?
  dsimp only
  split
  · exact nofun
  · exact nofun
  · trivial
  · trivial
  · trivial
  split
  · exact hsome _ _
  all_goals exact (Ends.any _).bind fun text _ => Ends.ite trivial (hsome _ text)

theorem unroll_sound (level : Nat) (n : Node) :
    Ends IsSoundRaw (fun _ => True) (t.unroll level n) := by
  induction level generalizing n with
  | zero => trivial
  | succ level ih =>
      rw [unroll]
      refine (scalar?_sound t n).bind fun found hfound => ?_
      cases found with
      | some s => exact .scalar (hfound s rfl)
      | none =>
          refine (Ends.any _).bind fun parts _ => ?_
          cases parts with
          | items ns => exact (Ends.mapM fun n _ => ih n).map fun vs hvs => .list hvs.2
          | entries es =>
              refine (Ends.any _).bind fun entries _ => ?_
              refine (Ends.mapM (Q := fun e => IsSoundRaw e.2) fun e _ => ?_).map fun kept hkept =>
                .mapping hkept.2
              exact (Ends.any _).bind fun _ _ => (ih e.2).map fun _ hv => hv

end Tree

/-- A YAML text has a value with sound scalars. -/
theorem read_sound (levels : Nat) (text : String) :
    Ends IsSoundRaw (fun _ => True) (read levels text) := by
  unfold read
  refine (Ends.any _).bind fun t? _ => ?_
  cases t? with
  | none => exact .scalar trivial
  | some t =>
      exact (Ends.any _).bind fun _ _ => t.unroll_sound levels t.root

end ApiClientGen.Yaml

namespace ApiClientGen.Source

open ApiClientGen.Document

/-- **What a description holds is sound**, in whichever format it is written. -/
theorem isSound_of_describe {format : Format} {bytes : ByteArray} {d : Description}
    (h : describe format bytes = .ok d) : IsSound (.mapping d.content) := by
  have hread : ∀ text, Ends IsSoundRaw (fun _ => True) (format.read text) := by
    intro text
    cases format with
    | json =>
        exact ((Json.read_sound text).map fun _ => isSoundRaw_raw).mapError fun _ _ => trivial
    | yaml => exact (Yaml.read_sound (depthLimit + 1) text).mapError fun _ _ => trivial
  have hdescribe : Ends (fun d : Description => IsSound (.mapping d.content)) (fun _ => True)
      (describe format bytes) := by
    unfold describe
    split
    · refine (hread _).bind fun raw hraw => ?_
      refine ((isSound_plain hraw 0).mapError fun _ _ => trivial).bind fun v hv => ?_
      split
      · exact ((Ends.any _).mapError fun _ _ => trivial).bind fun _ _ => hv
      · trivial
    · trivial
  exact hdescribe.of_ok h

end ApiClientGen.Source
