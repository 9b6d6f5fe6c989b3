/-
Files that are written and read again.

Writing a file changes what stands at one place of a tree and nothing else.  A path is followed
through directories only, and no file is written in the place of one, so that a path leads to the
same place afterwards.
-/
import ApiClientGen.Files.Tree
import ApiClientGen.Proofs.Document.Answers

namespace ApiClientGen.Files

namespace Tree

variable {t : Tree} {place other : Place} {e : Entry}

theorem get?_root (t : Tree) : t.get? [] = some .directory := if_pos rfl

theorem lookup_replaced {entries : List (Place × Entry)} (h : ∃ x ∈ entries, x.1 = place) :
    (entries.map fun x => if x.1 = place then (place, e) else x).lookup place = some e := by
  induction entries with
  | nil =>
      obtain ⟨x, hx, -⟩ := h
      cases hx
  | cons y entries ih =>
      by_cases hy : y.1 = place
      · simp [hy]
      · obtain ⟨x, hx, hplace⟩ := h
        have hrest : x ∈ entries := by
          rcases List.mem_cons.mp hx with rfl | hx
          · exact absurd hplace hy
          · exact hx
        have hne : (place == y.1) = false := beq_eq_false_iff_ne.mpr (Ne.symm hy)
        rw [List.map_cons, if_neg hy, List.lookup_cons, hne]
        exact ih ⟨x, hrest, hplace⟩

/-- What is put at a place stands there. -/
theorem get?_put_self (hne : place ≠ []) : (t.put place e).get? place = some e := by
  unfold get? put
  rw [if_neg hne]
  by_cases hthere : (t.entries.any fun x => x.1 == place) = true
  · rw [if_pos hthere]
    obtain ⟨x, hx, hplace⟩ := List.any_eq_true.mp hthere
    exact lookup_replaced ⟨x, hx, eq_of_beq hplace⟩
  · rw [if_neg hthere]
    have hnone : t.entries.lookup place = none := by
      rw [List.lookup_eq_none_iff]
      intro x hx
      have hplace : x.1 ≠ place := fun heq =>
        hthere (List.any_eq_true.mpr ⟨x, hx, beq_iff_eq.mpr heq⟩)
      exact bne_iff_ne.mpr (Ne.symm hplace)
    rw [List.lookup_append, hnone]
    simp

/-- Nothing else in a tree changes. -/
theorem get?_put_of_ne (hne : other ≠ place) : (t.put place e).get? other = t.get? other := by
  unfold get? put
  by_cases hroot : other = []
  · rw [if_pos hroot, if_pos hroot]
  rw [if_neg hroot, if_neg hroot]
  have hother : (other == place) = false := beq_eq_false_iff_ne.mpr hne
  by_cases hthere : (t.entries.any fun x => x.1 == place) = true
  · rw [if_pos hthere]
    show (t.entries.map fun x => if x.1 = place then (place, e) else x).lookup other = _
    clear hthere
    induction t.entries with
    | nil => rfl
    | cons y entries ih =>
        by_cases hy : y.1 = place
        · have hy' : (other == y.1) = false := by rw [hy]; exact hother
          rw [List.map_cons, if_pos hy, List.lookup_cons, hother, List.lookup_cons, hy']
          exact ih
        · rw [List.map_cons, if_neg hy, List.lookup_cons, List.lookup_cons, ih]
  · rw [if_neg hthere, List.lookup_append]
    cases t.entries.lookup other <;> simp [List.lookup_cons, hother]

/-! ### Paths -/

/-- A path goes on as before from wherever it went on. -/
theorem follow_put (hplace : t.get? place ≠ some .directory) {q q' : Place} {name : String}
    (h : t.follow q name = .ok q') : (t.put place e).follow q name = .ok q' := by
  unfold follow at h ⊢
  by_cases hq : q = place
  · subst hq
    split at h
    · cases h
    · cases h
    · rename_i hdirectory
      exact absurd hdirectory hplace
  · rw [get?_put_of_ne hq]
    exact h

theorem foldlM_follow_put (hplace : t.get? place ≠ some .directory) {names : List String}
    {q q' : Place} (h : names.foldlM t.follow q = .ok q') :
    names.foldlM (t.put place e).follow q = .ok q' := by
  induction names generalizing q with
  | nil => exact h
  | cons name names ih =>
      rw [List.foldlM_cons] at h ⊢
      cases hnext : t.follow q name with
      | error fault =>
          rw [hnext] at h
          cases h
      | ok next =>
          rw [hnext] at h
          rw [follow_put hplace hnext]
          exact ih h

theorem locate_put (hplace : t.get? place ≠ some .directory) {here q : Place} {path : String}
    (h : t.locate here path = .ok q) : (t.put place e).locate here path = .ok q := by
  unfold locate at h ⊢
  split at h
  · cases h
  · cases h
  · exact foldlM_follow_put hplace h
  · exact foldlM_follow_put hplace h

/-! ### Files -/

variable {here : Place} {path : String}

/-- Behind the path of a file that was put there is the file. -/
theorem lookUp_put (hlocate : t.locate here path = .ok place) (hplace : t.get? place ≠ some .directory) :
    (t.put place e).lookUp here path = .ok e := by
  have hne : place ≠ [] := by
    rintro rfl
    exact hplace (get?_root t)
  refine except_bind_ok.mpr ⟨place, locate_put hplace hlocate, ?_⟩
  rw [get?_put_self hne]
  rfl

/-- A program finds the file that was put at the end of a path, and reads its content. -/
theorem read_put (content : ByteArray) (hlocate : t.locate here path = .ok place)
    (hplace : t.get? place ≠ some .directory) :
    (t.put place (.file content)).isThere here path = true
      ∧ (t.put place (.file content)).read here path = .ok content := by
  have hlookUp := lookUp_put (e := .file content) hlocate hplace
  constructor
  · unfold isThere
    rw [hlookUp]
    rfl
  · unfold read
    rw [hlookUp]
    rfl

/-- A file can be written where there is no directory. -/
theorem write_ok (hlocate : t.locate here path = .ok place) (hplace : t.get? place ≠ some .directory)
    (content : String) :
    t.write here path content = .ok (t.put place (.file content.toUTF8)) := by
  refine except_bind_ok.mpr ⟨place, hlocate, ?_⟩
  split
  · rename_i hdirectory
    exact absurd hdirectory hplace
  · rfl

/-- **A file that a program writes** is there for it afterwards, and its content is read again. -/
theorem fileSystem_write (hlocate : t.locate here path = .ok place)
    (hplace : t.get? place ≠ some .directory) (content : String) :
    ∃ t', ((fileSystem here).write path content).run t = (.ok (), t')
      ∧ ((fileSystem here).isThere path).run t' = (true, t')
      ∧ ((fileSystem here).read path).run t' = (.ok content.toUTF8, t') := by
  obtain ⟨hthere, hread⟩ := read_put content.toUTF8 hlocate hplace
  refine ⟨t.put place (.file content.toUTF8), ?_, ?_, ?_⟩
  · show (change fun t => t.write here path content).run t = _
    unfold change
    rw [StateT.run_modifyGet]
    dsimp only
    rw [write_ok hlocate hplace]
    rfl
  · show (_, _) = _
    rw [hthere]
  · show (_, _) = _
    rw [hread]

end Tree

end ApiClientGen.Files
