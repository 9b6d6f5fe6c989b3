/-
The values of JSON text in YAML.

The tree of a portable value has the value again, with every fractional number as what its word
stands for: no key merges anything, no two keys are one, and every scalar has the shape of its
kind.  Only integers with very many digits have to be left out, which no reader takes.
-/
import ApiClientGen.Proofs.Document.Outcomes
import ApiClientGen.Proofs.Yaml.WrittenNodes
import ApiClientGen.Yaml.Reader

namespace ApiClientGen.Yaml

open ApiClientGen.Document ApiClientGen.Json

namespace Tree

variable {t : Tree}

/-! ### Scalars and parts -/

/-- The node of a portable scalar stands for the scalar as it is read back. -/
theorem scalar?_scalarNode {s : Scalar} (hs : IsPortableScalar s) (hfew : HasFewDigits s) :
    t.scalar? (scalarNode s) = .ok (some (reread s)) := by
  rcases text_or_bareWord hs with ⟨text, rfl, -⟩ | ⟨htext, -⟩
  · rfl
  · obtain ⟨hkind, hread⟩ := scalarOf_scalarWord hs hfew htext
    have hshape : Tag.implicit.scalarKind (String.ofList (scalarWord s)) = shapeKind (scalarWord s) := by
      rw [Tag.scalarKind, String.toList_ofList]
    rw [scalarNode.eq_2 s htext]
    unfold Tree.scalar?
    dsimp only [Tree.target]
    rw [hshape]
    generalize shapeKind (scalarWord s) = kind at hkind hread
    simp only [List.mem_cons, List.not_mem_nil, or_false] at hkind
    rcases hkind with rfl | rfl | rfl | rfl <;>
    · dsimp only
      rw [hread]
      rfl

theorem mem_itemNodes {vs : List Value} : ∀ n ∈ itemNodes vs, ∃ v ∈ vs, n = node v := by
  induction vs with
  | nil => exact nofun
  | cons v vs ih =>
      refine List.forall_mem_cons.mpr ⟨⟨v, by simp, rfl⟩, fun n hn => ?_⟩
      obtain ⟨v, hv, rfl⟩ := ih n hn
      exact ⟨v, List.mem_cons_of_mem _ hv, rfl⟩

theorem mem_fieldNodes {fs : List (String × Value)} :
    ∀ p ∈ fieldNodes fs, ∃ e ∈ fs, p = (.scalar "" .text e.1, node e.2) := by
  induction fs with
  | nil => exact nofun
  | cons e fs ih =>
      refine List.forall_mem_cons.mpr ⟨⟨e, by simp, rfl⟩, fun p hp => ?_⟩
      obtain ⟨e, he, rfl⟩ := ih p hp
      exact ⟨e, List.mem_cons_of_mem _ he, rfl⟩

/-- No key of a field merges anything or names a value. -/
theorem mergedEntries_fieldNodes (fuel : Nat) (fs : List (String × Value)) :
    t.mergedEntries fuel [] "" (fieldNodes fs) = .ok (fieldNodes fs) := by
  have hkey : ∀ e ∈ fieldNodes fs, t.keyKind? e.1 = some .text ∧ t.plainKey e.1 = e.1 := by
    intro p hp
    obtain ⟨e, -, rfl⟩ := mem_fieldNodes p hp
    exact ⟨rfl, rfl⟩
  have hown : (fieldNodes fs).filter (fun e => t.keyKind? e.1 ≠ some .merge) = fieldNodes fs := by
    refine List.filter_eq_self.mpr fun e he => ?_
    rw [(hkey e he).1]
    rfl
  have hsources : (fieldNodes fs).filter (fun e => t.keyKind? e.1 = some .merge) = [] := by
    refine List.filter_eq_nil_iff.mpr fun e he => ?_
    rw [(hkey e he).1]
    decide
  have hplain : (fieldNodes fs).map (fun e => (t.plainKey e.1, e.2)) = fieldNodes fs := by
    refine (List.map_congr_left fun e he => ?_).trans (List.map_id _)
    rw [(hkey e he).2]
    rfl
  cases fuel with
  | zero => exact congrArg Except.ok hown
  | succ fuel =>
      rw [Tree.mergedEntries, hown, hsources, hplain, if_neg (by simp)]
      rfl

theorem parts_mapping (fs : List (String × Value)) :
    t.parts (node (.mapping fs)) = .ok (.entries (fieldNodes fs)) := by
  show Parts.entries <$> t.mergedEntries t.bound [] "" (fieldNodes fs) = _
  rw [mergedEntries_fieldNodes]
  rfl

/-! ### A tree has a value -/

/-- A portable value whose scalars can be read back. -/
def IsReadable (v : Value) : Prop := IsPortable v ∧ AllScalars HasFewDigits v

/-- The node of a collection that can be read back. -/
def IsCollectionNode (n : Node) : Prop := ∃ v, n = node v ∧ IsReadable v ∧ ∀ s, v ≠ .scalar s

/-- Of the nodes of values, those without a scalar are collections. -/
theorem scalar?_node {v : Value} (hv : IsReadable v) :
    Ends (fun s => s.isNone = true → IsCollectionNode (node v)) (fun _ => False)
      (t.scalar? (node v)) := by
  cases v with
  | scalar s =>
      obtain ⟨⟨hs⟩, ⟨hfew⟩⟩ := hv
      rw [node, scalar?_scalarNode hs hfew]
      exact nofun
  | list vs => exact fun _ => ⟨_, rfl, hv, nofun⟩
  | mapping fs => exact fun _ => ⟨_, rfl, hv, nofun⟩

/-- The parts of a collection that are collections themselves are found without a fault. -/
theorem innerCollections_ends {n : Node} (hn : IsCollectionNode n) :
    Ends (fun ns => ∀ m ∈ ns, IsCollectionNode m) (fun _ => False) (t.innerCollections n) := by
  obtain ⟨v, rfl, ⟨hv, hfew⟩, hcollection⟩ := hn
  cases hv with
  | @scalar s => exact absurd rfl (hcollection s)
  | list hvs =>
      cases hfew with
      | list hfew =>
          refine Ends.filterM fun m hm => ?_
          obtain ⟨v, hmem, rfl⟩ := mem_itemNodes m hm
          exact (scalar?_node ⟨hvs v hmem, hfew v hmem⟩).bind fun _ h => h
  | mapping _ _ _ hvs =>
      cases hfew with
      | mapping hfew =>
          unfold Tree.innerCollections
          rw [parts_mapping]
          refine (Ends.filterM (P := fun e => IsCollectionNode e.2) fun p hp => ?_).bind
            fun values hvalues => ?_
          · obtain ⟨e, hmem, rfl⟩ := mem_fieldNodes p hp
            exact (scalar?_node ⟨hvs e hmem, hfew e hmem⟩).bind fun _ h => h
          · intro m hm
            obtain ⟨e, he, rfl⟩ := List.mem_map.mp hm
            exact hvalues e he

/-- Looking at collections that can be read back finds no fault. -/
theorem checkLevels_ends (fuel : Nat) (seen : List String) {ns : List Node}
    (hns : ∀ n ∈ ns, IsCollectionNode n) :
    Ends (fun _ => True) (fun _ => False) (t.checkLevels fuel seen ns) := by
  fun_induction Tree.checkLevels t fuel seen ns with
  | case1 => trivial
  | case2 => trivial
  | case3 fuel seen n rest anchor hseen ih =>
      exact ih (List.forall_mem_cons.mp hns).2
  | case4 fuel seen n rest anchor hseen ih =>
      obtain ⟨hn, hrest⟩ := List.forall_mem_cons.mp hns
      refine (innerCollections_ends hn).bind fun inner hinner => ih inner ?_
      exact List.forall_mem_append.mpr ⟨hrest, hinner⟩

/-- The tree of a value that can be read back has a value. -/
theorem check_treeOf {v : Value} (hv : IsReadable v) : (treeOf v).check = .ok () := by
  have hends : Ends (fun _ => True) (fun _ => False) (treeOf v).check := by
    unfold Tree.check
    refine (scalar?_node hv).bind fun s hs => ?_
    cases s with
    | some s => trivial
    | none => exact checkLevels_ends _ _ (List.forall_mem_singleton.mpr (hs rfl))
  obtain ⟨⟨⟩, hcheck, -⟩ := hends.exists_ok
  exact hcheck

/-! ### The value -/

theorem writeKey_of_new {α : Type} {done : List (Scalar × α)} {key : Scalar}
    (hnew : ∀ d ∈ done, sameKey d.1 key = false) (value : α) :
    writeKey done key value = done ++ [(key, value)] := by
  induction done with
  | nil => rfl
  | cons d done ih =>
      obtain ⟨hd, hdone⟩ := List.forall_mem_cons.mp hnew
      rw [writeKey, hd, if_neg Bool.false_ne_true, ih hdone]
      rfl

/-- What is written under different keys stays as it is. -/
theorem foldl_writeKey {α : Type} (es done : List (Scalar × α))
    (hdiffer : (done ++ es).Pairwise fun d e => sameKey d.1 e.1 = false) :
    es.foldl (fun acc e => writeKey acc e.1 e.2) done = done ++ es := by
  induction es generalizing done with
  | nil => simp
  | cons e es ih =>
      have hnew : ∀ d ∈ done, sameKey d.1 e.1 = false := fun d hd =>
        (List.pairwise_append.mp hdiffer).2.2 d hd e (by simp)
      rw [List.foldl_cons, writeKey_of_new hnew, ih _ (by simpa using hdiffer)]
      simp

/-- The fields of a mapping with the texts of their keys. -/
def keyedNodes (fs : List (String × Value)) : List (Scalar × Node) :=
  fs.map fun e => (Scalar.string e.1, node e.2)

theorem foldl_keyedNodes {fs : List (String × Value)} (hkeys : (Fields.keys fs).Nodup) :
    (keyedNodes fs).foldl (fun acc e => writeKey acc e.1 e.2) [] = keyedNodes fs := by
  refine foldl_writeKey _ [] (List.pairwise_map.mpr ?_)
  refine (List.pairwise_map.mp hkeys).imp fun hne => ?_
  exact beq_eq_false_iff_ne.mpr fun hsame => hne (Scalar.string.inj hsame)

theorem keys_mapM {fs : List (String × Value)} {f : Node × Node → Except Fault (Scalar × Node)}
    (hf : ∀ k n, f (.scalar "" .text k, n) = .ok (.string k, n)) :
    (fieldNodes fs).mapM f = .ok (keyedNodes fs) := by
  induction fs with
  | nil => rfl
  | cons e fs ih =>
      rw [fieldNodes, List.mapM_cons, hf, ih]
      rfl

theorem items_mapM {vs : List Value} {f : Node → Except Fault RawValue}
    (hf : ∀ v ∈ vs, f (node v) = .ok (readBack v).raw) :
    (itemNodes vs).mapM f = .ok (rawItems (readBackItems vs)) := by
  induction vs with
  | nil => rfl
  | cons v vs ih =>
      obtain ⟨hv, hvs⟩ := List.forall_mem_cons.mp hf
      rw [itemNodes, List.mapM_cons, hv, ih hvs]
      rfl

theorem fields_mapM {fs : List (String × Value)}
    {f : Scalar × Node → Except Fault (Scalar × RawValue)}
    (hf : ∀ e ∈ fs, f (.string e.1, node e.2) = .ok (.string e.1, (readBack e.2).raw)) :
    (keyedNodes fs).mapM f = .ok (rawEntries (readBackFields fs)) := by
  induction fs with
  | nil => rfl
  | cons e fs ih =>
      obtain ⟨he, hfs⟩ := List.forall_mem_cons.mp hf
      rw [keyedNodes, List.map_cons, List.mapM_cons, he]
      rw [keyedNodes] at ih
      rw [ih hfs]
      rfl

/-- **The tree of a value** has the value as it is read back. -/
theorem unroll_node {level : Nat} {v : Value} (hlevel : IsWithin level v) (hv : IsReadable v) :
    t.unroll level (node v) = .ok (readBack v).raw := by
  obtain ⟨hv, hfew⟩ := hv
  induction hlevel with
  | @scalar level s =>
      obtain ⟨⟨hs⟩, ⟨hfew⟩⟩ := And.intro hv hfew
      rw [Tree.unroll, node, scalar?_scalarNode hs hfew]
      rfl
  | @list level vs _ ih =>
      cases hv with
      | list hvs =>
          cases hfew with
          | list hfew =>
              have hitems := items_mapM fun v hv => ih v hv (hvs v hv) (hfew v hv)
              show (do return RawValue.list (← (itemNodes vs).mapM (t.unroll level))) = _
              rw [hitems]
              rfl
  | @mapping level fs _ ih =>
      cases hv with
      | mapping hkeys _ _ hvs =>
          cases hfew with
          | mapping hfew =>
              have hscalar : t.scalar? (node (.mapping fs)) = .ok none := rfl
              have hfields := fields_mapM (f := fun e => do
                  let _ ← e.1.keyText.mapError Fault.raw
                  return (e.1, ← t.unroll level e.2))
                fun e he => by rw [ih e he (hvs e he) (hfew e he)]; rfl
              rw [Tree.unroll, hscalar]
              dsimp only [bind, Except.bind]
              rw [parts_mapping]
              dsimp only
              rw [keys_mapM fun k n => rfl]
              dsimp only
              rw [foldl_keyedNodes hkeys]
              show ((keyedNodes fs).mapM (fun e => do
                  let _ ← e.1.keyText.mapError Fault.raw
                  return (e.1, ← t.unroll level e.2)) >>= _) = _
              rw [hfields]
              rfl

end Tree

end ApiClientGen.Yaml
