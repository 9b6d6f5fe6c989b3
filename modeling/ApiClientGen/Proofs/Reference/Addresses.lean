/-
References into their own document.

A reference that begins with a hash sign has no scheme, no host and no path, so it leads into
the document it is in, and all that stands behind the hash sign is the pointer.  The address is
read without tabs and line ends, so that only references without them keep their pointer.

The pointer may have codes behind percent signs and marks behind tildes.  None of this, nor the
tabs and line ends, reaches a plain name at its beginning: whatever follows the name and a slash,
the pointer leads to the name first.  So all references that begin with the way into the components
do lead into the components.
-/
import ApiClientGen.Proofs.Document.Answers
import ApiClientGen.Proofs.Reference.Pointers
import ApiClientGen.Reference.Resolve

namespace ApiClientGen.Reference

open ApiClientGen.Number ApiClientGen.Text

namespace Address

variable {fragment : List Char}

/-- A text behind a hash sign is read as it is if nothing in it is dropped. -/
theorem cleaned_fragment (h : ∀ c ∈ fragment, c ≠ '\t' ∧ c ≠ '\r' ∧ c ≠ '\n') :
    cleaned ('#' :: fragment) = '#' :: fragment := by
  have hkept : fragment.filter (fun c => c != '\t' && c != '\r' && c != '\n') = fragment :=
    List.filter_eq_self.mpr fun c hc => by simp [h c hc]
  rw [cleaned, List.dropWhile_cons_of_neg (by decide), List.filter_cons_of_pos (by decide), hkept]

/-- No scheme begins with a hash sign. -/
theorem takeScheme_fragment (fragment : List Char) :
    takeScheme ('#' :: fragment) = ([], '#' :: fragment) := by
  unfold takeScheme
  split
  · rename_i scheme rest hsplit
    have hscheme : scheme = '#' :: fragment.takeWhile fun c => !(c == ':') := by
      have hfirst := congrArg Prod.fst hsplit
      rw [splitAtFirst, List.takeWhile_cons_of_pos (by decide)] at hfirst
      exact hfirst.symm
    have hhead : (scheme.head?.map Char.isAlpha).getD false = false := by
      rw [hscheme]
      rfl
    rw [hhead, Bool.false_and, if_neg Bool.false_ne_true]
  · rfl

/-- An address that begins with a hash sign is a pointer and nothing else. -/
theorem ofText_fragment (h : ∀ c ∈ fragment, c ≠ '\t' ∧ c ≠ '\r' ∧ c ≠ '\n') :
    ofText ('#' :: fragment) = .ok ⟨[], [], [], [], fragment⟩ := by
  have hhost : takeHost ('#' :: fragment) = ([], '#' :: fragment) := by simp [takeHost]
  have hcut : cutAt '#' ('#' :: fragment) = ([], fragment) := by simp [cutAt, splitAtFirst]
  unfold ofText
  rw [cleaned_fragment h, takeScheme_fragment]
  simp only [hhost, hcut]
  rfl

end Address

/-- **A reference behind a hash sign leads into its own document.** -/
theorem Linked.target_fragment {pointer : String}
    (h : IsWithout ['\t', '\r', '\n'] pointer) :
    Linked.target ("#" ++ pointer) = .ok ⟨"", pointer⟩ := by
  have hlist : ("#" ++ pointer).toList = '#' :: pointer.toList := by simp
  have htarget : Target.ofText ("#" ++ pointer) = .ok ⟨"", pointer⟩ := by
    unfold Target.ofText
    rw [hlist, if_pos (by simp), Address.ofText_fragment fun c hc => by simpa using h c hc]
    show Except.ok (Target.mk "" (String.ofList pointer.toList)) = _
    rw [String.ofList_toList]
  rw [Linked.target, htarget]
  rfl

/-! ### Pointers that begin with a plain name -/

/-- The run that a text begins with goes on from the one before it. -/
theorem exists_asciiRuns (t : List Char) :
    ∃ first more, ∀ run, asciiRuns run t = (run.reverse ++ first) :: more := by
  induction t with
  | nil => exact ⟨[], [], fun run => by simp [asciiRuns]⟩
  | cons c t ih =>
      obtain ⟨first, more, hruns⟩ := ih
      by_cases hc : c.toNat < 128
      · refine ⟨c :: first, more, fun run => ?_⟩
        rw [asciiRuns, if_pos hc, hruns]
        simp
      · refine ⟨[], [c] :: asciiRuns [] t, fun run => ?_⟩
        rw [asciiRuns, if_neg hc, List.append_nil]

theorem asciiRuns_append {s : List Char} (h : ∀ c ∈ s, c.toNat < 128) (run t : List Char) :
    asciiRuns run (s ++ t) = asciiRuns (s.reverse ++ run) t := by
  induction s generalizing run with
  | nil => rfl
  | cons c s ih =>
      rw [List.cons_append, asciiRuns, if_pos (h c (by simp)),
        ih fun d hd => h d (List.mem_cons_of_mem _ hd)]
      simp

/-- Codes behind percent signs change nothing in front of them. -/
theorem percentDecoded_append {s : List Char} (hascii : ∀ c ∈ s, c.toNat < 128) (h : '%' ∉ s)
    (t : List Char) : percentDecoded (s ++ t) = s ++ percentDecoded t := by
  obtain ⟨first, more, hruns⟩ := exists_asciiRuns t
  have hall : (s ++ first).all (fun c => c.toNat < 128) = first.all fun c => c.toNat < 128 := by
    rw [List.all_append, List.all_eq_true.mpr fun c hc => by simpa using hascii c hc, Bool.true_and]
  unfold percentDecoded
  rw [asciiRuns_append hascii, hruns, hruns, List.append_nil, List.reverse_reverse, List.reverse_nil,
    List.nil_append, List.flatMap_cons, List.flatMap_cons, hall, ← List.append_assoc]
  congr 1
  split
  · rw [percentBytes_append h, decodeUtf8_ascii_append hascii]
  · rfl

/-- **A pointer that begins with a plain name and a slash leads to that name first.** -/
theorem exists_pointerParts (name : List Char) (hne : name ≠ [])
    (hascii : ∀ c ∈ name, c.toNat < 128) (hmarks : ∀ c ∈ name, c ∉ ['/', '~', '%'])
    (rest : List Char) :
    ∃ more, pointerParts (String.ofList ('/' :: (name ++ '/' :: rest)))
      = String.ofList name :: more := by
  have hslash : '/' ∉ name := fun hmem => hmarks _ hmem (by simp)
  have htilde : '~' ∉ name := fun hmem => hmarks _ hmem (by simp)
  have hpercent : '%' ∉ name ++ ['/'] := fun hmem => by
    rcases List.mem_append.mp hmem with hname | hslash
    · exact hmarks _ hname (by simp)
    · exact absurd hslash (by decide)
  have hnonempty : String.ofList ('/' :: (name ++ '/' :: rest)) ≠ "" := fun h => by
    simpa using congrArg String.toList h
  have hdrop : ('/' :: (name ++ '/' :: rest)).dropWhile (· == '/') = (name ++ ['/']) ++ rest := by
    obtain ⟨c, tail, rfl⟩ := List.exists_cons_of_ne_nil hne
    have hc : c ≠ '/' := fun hc => hslash (hc ▸ List.mem_cons_self ..)
    simp [hc]
  have hdecoded : percentDecoded ((name ++ ['/']) ++ rest) = name ++ '/' :: percentDecoded rest := by
    rw [percentDecoded_append _ hpercent, List.append_assoc]
    · rfl
    · intro c hc
      rcases List.mem_append.mp hc with hname | hslash
      · exact hascii c hname
      · rw [List.mem_singleton.mp hslash]
        decide
  refine ⟨(splitOn '/' (percentDecoded rest)).map fun part => String.ofList (unescaped part), ?_⟩
  rw [pointerParts, if_neg hnonempty, String.toList_ofList, hdrop, hdecoded,
    splitOn_append_cons hslash, List.map_cons, unescaped_eq_self htilde]

/-! ### References behind a hash sign -/

/-- A pointer without what does not count in addresses. -/
def counted (pointer : List Char) : List Char :=
  pointer.filter fun c => c != '\t' && c != '\r' && c != '\n'

/-- **A reference behind a hash sign leads into its own document**, by what counts of its pointer. -/
theorem Linked.target_counted (pointer : List Char) :
    target (String.ofList ('#' :: pointer)) = .ok ⟨"", String.ofList (counted pointer)⟩ := by
  have hcounted : ∀ c ∈ counted pointer, c ≠ '\t' ∧ c ≠ '\r' ∧ c ≠ '\n' := fun c hc => by
    simpa [counted, and_assoc] using (List.mem_filter.mp hc).2
  have hcleaned : Address.cleaned ('#' :: pointer) = Address.cleaned ('#' :: counted pointer) := by
    rw [Address.cleaned_fragment hcounted, Address.cleaned,
      List.dropWhile_cons_of_neg (by decide), List.filter_cons_of_pos (by decide)]
    rfl
  have hofText : Address.ofText ('#' :: pointer) = .ok ⟨[], [], [], [], counted pointer⟩ := by
    rw [← Address.ofText_fragment hcounted, Address.ofText, Address.ofText, hcleaned]
  have htarget : Target.ofText (String.ofList ('#' :: pointer))
      = .ok ⟨"", String.ofList (counted pointer)⟩ := by
    unfold Target.ofText
    rw [String.toList_ofList, if_pos (by simp), hofText]
    rfl
  rw [target, htarget]
  rfl

/-- A reference that begins with the way into the components. -/
def LeadsIntoComponents (ref : String) : Prop := beginsWith ref "#/components/" = true

instance : DecidablePred LeadsIntoComponents :=
  fun ref => inferInstanceAs (Decidable (beginsWith ref "#/components/" = true))

/-- **A reference that begins with the way into the components leads into the components.** -/
theorem LeadsIntoComponents.target {ref : String} (h : LeadsIntoComponents ref) :
    ∃ t rest, Linked.target ref = .ok t ∧ pointerParts t.fragment = "components" :: rest := by
  obtain ⟨rest, rfl⟩ := beginsWith_iff.mp h
  have href : "#/components/" ++ rest
      = String.ofList ('#' :: '/' :: ("components".toList ++ '/' :: rest.toList)) :=
    String.toList_injective (by simp)
  have hcounted : counted ('/' :: ("components".toList ++ '/' :: rest.toList))
      = '/' :: ("components".toList ++ '/' :: counted rest.toList) := by
    simp [counted]
  obtain ⟨more, hmore⟩ := exists_pointerParts "components".toList (by decide)
    (by simp) (by simp) (counted rest.toList)
  refine ⟨_, more, href ▸ Linked.target_counted _, ?_⟩
  rw [hcounted, hmore]
  rfl

end ApiClientGen.Reference
