/-
The names in annotations.

A name is a run of letters, digits and low lines, and what stands behind a dot is no name of its
own but belongs to what is in front of it.  The annotation of a type mentions only names that the
models file imports, types that are built in, and the name of a model; and there is at most one
model in a type, since only the innermost items can be one.
-/
import ApiClientGen.Client.Types
import ApiClientGen.Proofs.Naming.ModelNames
import ApiClientGen.Proofs.Spec.Closed

namespace ApiClientGen.Client

open ApiClientGen.Extraction ApiClientGen.Spec

/-! ### Names in a text -/

/-- Whether a character can be part of a name; outside of ASCII all of them count. -/
def isNameChar (c : Char) : Bool := c.isAlphanum || c == '_' || 128 ≤ c.toNat

/-- A name that has been read, last character first, unless it stands behind a dot. -/
def nameRead (behindDot : Bool) (word : List Char) : List String :=
  if behindDot || word.isEmpty then [] else [String.ofList word.reverse]

/-- The names in the rest of a text, when some characters of one have been read. -/
def namesFrom (behindDot : Bool) (word : List Char) : List Char → List String
  | [] => nameRead behindDot word
  | c :: rest =>
    if isNameChar c then namesFrom behindDot (c :: word) rest
    else nameRead behindDot word ++ namesFrom (c == '.') [] rest

/-- The names that an annotation mentions. -/
def namesIn (text : String) : List String := namesFrom false [] text.toList

example : namesIn "Dict[str, Optional[List[dt.date]]]" = ["Dict", "str", "Optional", "List", "dt"] := by
  decide

/-- A text that is a name. -/
def IsName (text : String) : Prop := text ≠ "" ∧ text.toList.all isNameChar = true

instance (text : String) : Decidable (IsName text) := instDecidableAnd

/-- A mark ends the name in front of it. -/
theorem namesFrom_append {c : Char} (hc : isNameChar c = false) (behindDot : Bool)
    (word s rest : List Char) :
    namesFrom behindDot word (s ++ c :: rest)
      = namesFrom behindDot word s ++ namesFrom (c == '.') [] rest := by
  induction s generalizing behindDot word with
  | nil => simp [namesFrom, hc]
  | cons d s ih =>
      rw [List.cons_append, namesFrom, namesFrom]
      split
      · exact ih behindDot (d :: word)
      · rw [ih, List.append_assoc]

theorem namesFrom_word {s : List Char} (h : ∀ c ∈ s, isNameChar c = true) (behindDot : Bool)
    (word : List Char) : namesFrom behindDot word s = nameRead behindDot (s.reverse ++ word) := by
  induction s generalizing word with
  | nil => rfl
  | cons c s ih =>
      obtain ⟨hc, hs⟩ := List.forall_mem_cons.mp h
      rw [namesFrom, if_pos hc, ih hs]
      simp

theorem namesIn_of_isName {text : String} (h : IsName text) : namesIn text = [text] := by
  have hne : text.toList ≠ [] := fun hnil => h.1 (String.toList_eq_nil_iff.mp hnil)
  rw [namesIn, namesFrom_word (List.all_eq_true.mp h.2), nameRead, if_neg (by simpa using hne)]
  simp

/-- The names in two texts with a mark between them, which is no dot. -/
theorem namesIn_append (mark : String) {c : Char} (hmark : mark.toList = [c])
    (hc : isNameChar c = false) (hdot : (c == '.') = false) (s t : String) :
    namesIn (s ++ mark ++ t) = namesIn s ++ namesIn t := by
  rw [namesIn, String.toList_append, String.toList_append, hmark, List.append_assoc,
    List.singleton_append, namesFrom_append hc, hdot]
  rfl

/-! ### Names in the annotation of a type -/

/-- The names that annotations use and the models file imports. -/
def typingNames : List String := ["dt", "Any", "Dict", "List", "Optional"]

/-- The types that annotations use and that are built in. -/
def builtinNames : List String := ["str", "int", "float", "bool", "bytes"]

variable {name : String}

theorem namesIn_wrapped {wrapper : String} (hwrapper : IsName wrapper) (inner : String) :
    namesIn (wrapper ++ "[" ++ inner ++ "]") = wrapper :: namesIn inner := by
  have hclose := namesIn_append "]" rfl (by decide) (by decide) (wrapper ++ "[" ++ inner) ""
  rw [String.append_empty] at hclose
  rw [hclose, namesIn_append "[" rfl (by decide) (by decide), namesIn_of_isName hwrapper,
    show namesIn "" = [] from rfl, List.append_nil, List.singleton_append]

theorem mem_namesIn_wrappedIn {wrapper inner : String} (hwrapper : IsName wrapper)
    (h : name ∈ namesIn (wrappedIn wrapper inner)) :
    name = wrapper ∨ name ∈ typingNames ∨ name ∈ namesIn inner := by
  unfold wrappedIn at h
  split at h
  · have hany : namesIn "Any" = ["Any"] := by decide
    rw [hany, List.mem_singleton] at h
    rw [h]
    exact Or.inr (Or.inl (by decide))
  · rw [namesIn_wrapped hwrapper] at h
    rcases List.mem_cons.mp h with hwrapper | hinner
    · exact Or.inl hwrapper
    · exact Or.inr (Or.inr hinner)

/-- The names in the annotation of a map, inside of its brackets. -/
theorem namesIn_keyed (item : String) : namesIn ("str, " ++ item) = "str" :: namesIn item := by
  have hmark := namesIn_append " " rfl (by decide) (by decide) "str," item
  rw [show namesIn "str," = ["str"] by decide] at hmark
  exact hmark

theorem mem_namesIn_nullableText {nullable : Bool} {text : String}
    (h : name ∈ namesIn (nullableText nullable text)) : name ∈ typingNames ∨ name ∈ namesIn text := by
  unfold nullableText at h
  split at h
  · rcases mem_namesIn_wrappedIn (by decide) h with rfl | htyping | hinner
    · exact Or.inl (by decide)
    · exact Or.inl htyping
    · exact Or.inr hinner
  · exact Or.inr h

theorem mem_namesIn_kindText {kind : TypeKind} (h : name ∈ namesIn (kindText kind)) :
    name ∈ builtinNames ∨ name ∈ typingNames := by
  have hall : ∀ kind, ∀ name ∈ namesIn (kindText kind),
      name ∈ builtinNames ∨ name ∈ typingNames := by
    intro kind
    cases kind <;> decide
  exact hall kind name h

/-- The names in an annotation, but for null, from those in the annotation for its items. -/
theorem mem_namesIn_plainTypeText {kind : TypeKind} {model : Option String} {item : String}
    (hmodel : kind = .model → ∃ text, model = some text ∧ IsName text)
    (h : name ∈ namesIn (plainTypeText "" kind model item)) :
    name ∈ builtinNames ∨ name ∈ typingNames ∨ (kind = .model ∧ model = some name)
      ∨ ((kind = .array ∨ kind = .map) ∧ name ∈ namesIn item) := by
  cases kind with
  | array =>
      rcases mem_namesIn_wrappedIn (by decide) h with rfl | htyping | hinner
      · exact Or.inr (Or.inl (by decide))
      · exact Or.inr (Or.inl htyping)
      · exact Or.inr (Or.inr (Or.inr ⟨Or.inl rfl, hinner⟩))
  | map =>
      rcases mem_namesIn_wrappedIn (by decide) h with rfl | htyping | hinner
      · exact Or.inr (Or.inl (by decide))
      · exact Or.inr (Or.inl htyping)
      · rw [namesIn_keyed] at hinner
        rcases List.mem_cons.mp hinner with rfl | hitem
        · exact Or.inl (by decide)
        · exact Or.inr (Or.inr (Or.inr ⟨Or.inr rfl, hitem⟩))
  | model =>
      obtain ⟨text, rfl, htext⟩ := hmodel rfl
      rw [plainTypeText, Option.getD_some, String.empty_append, namesIn_of_isName htext,
        List.mem_singleton] at h
      exact Or.inr (Or.inr (Or.inl ⟨rfl, h ▸ rfl⟩))
  | string | integer | number | boolean | date | datetime | binary | any =>
      rcases mem_namesIn_kindText h with hbuiltin | htyping
      · exact Or.inl hbuiltin
      · exact Or.inr (Or.inl htyping)

theorem isName_of_isModelName (h : IsModelName name) : IsName name := by
  obtain ⟨c, rest, hlist, hc, hrest⟩ := h
  refine ⟨fun hempty => by simp [hempty] at hlist, List.all_eq_true.mpr fun d hd => ?_⟩
  have halphanum : d.isAlphanum = true := by
    rw [hlist] at hd
    rcases List.mem_cons.mp hd with rfl | hd
    · exact Naming.isAlphanum_of_isUpper hc
    · exact hrest d hd
  simp [isNameChar, halphanum]

/-- The names in the annotation of a type that is complete, from those in that for its items. -/
theorem mem_namesIn_complete {names : List String} (hnames : ∀ n ∈ names, IsModelName n)
    {t : TypeRef} (ht : t.Complete names) {item : String}
    (h : name ∈ namesIn (nullableText t.nullable (plainTypeText "" t.kind t.model item))) :
    name ∈ builtinNames ∨ name ∈ typingNames
      ∨ (t.kind = .model ∧ t.model = some name ∧ name ≠ "" ∧ name ∈ names)
      ∨ ((t.kind = .array ∨ t.kind = .map) ∧ name ∈ namesIn item) := by
  have hmodel : t.kind = .model → ∃ text, t.model = some text ∧ IsName text ∧ text ∈ names := by
    intro hkind
    obtain ⟨text, htext, heq⟩ := ht.model hkind
    exact ⟨text, heq, isName_of_isModelName (hnames text htext), htext⟩
  rcases mem_namesIn_nullableText h with htyping | hplain
  · exact Or.inr (Or.inl htyping)
  · have hname : t.kind = .model → ∃ text, t.model = some text ∧ IsName text := fun hkind => by
      obtain ⟨text, heq, htext, -⟩ := hmodel hkind
      exact ⟨text, heq, htext⟩
    rcases mem_namesIn_plainTypeText hname hplain with hbuiltin | htyping | ⟨hkind, heq⟩ | hitem
    · exact Or.inl hbuiltin
    · exact Or.inr (Or.inl htyping)
    · obtain ⟨text, htext, hisName, hmem⟩ := hmodel hkind
      obtain rfl : text = name := by simpa [htext] using heq
      exact Or.inr (Or.inr (Or.inl ⟨hkind, heq, hisName.1, hmem⟩))
    · exact Or.inr (Or.inr (Or.inr hitem))

/-- **What an annotation mentions**: imported names, types that are built in, and the model. -/
theorem mem_namesIn_typeText {names : List String} (hnames : ∀ n ∈ names, IsModelName n) :
    (t : TypeRef) → t.Closed names → name ∈ namesIn (typeText "" t) →
      name ∈ builtinNames ∨ name ∈ typingNames ∨ (t.modelName? = some name ∧ name ∈ names)
  | ⟨kind, model, none, nullable⟩, hclosed, h => by
      have hcomplete := hclosed ⟨kind, model, none, nullable⟩ (by simp [TypeRef.parts])
      rw [typeText] at h
      rcases mem_namesIn_complete hnames hcomplete h
        with hbuiltin | htyping | ⟨rfl, rfl, hne, hmem⟩ | ⟨hkind, -⟩
      · exact Or.inl hbuiltin
      · exact Or.inr (Or.inl htyping)
      · exact Or.inr (Or.inr ⟨by rw [TypeRef.modelName?, if_pos hne], hmem⟩)
      · exact absurd (hcomplete.item hkind) (by simp)
  | ⟨kind, model, some item, nullable⟩, hclosed, h => by
      have hcomplete := hclosed ⟨kind, model, some item, nullable⟩ (by simp [TypeRef.parts])
      have hitem : item.Closed names := fun u hu => hclosed u (by simp [TypeRef.parts, hu])
      rw [typeText] at h
      rcases mem_namesIn_complete hnames hcomplete h
        with hbuiltin | htyping | ⟨rfl, rfl, hne, hmem⟩ | ⟨hkind, hinner⟩
      · exact Or.inl hbuiltin
      · exact Or.inr (Or.inl htyping)
      · exact Or.inr (Or.inr ⟨by rw [TypeRef.modelName?, if_pos hne], hmem⟩)
      · have hname : (⟨kind, model, some item, nullable⟩ : TypeRef).modelName?
            = item.modelName? := by
          rcases hkind with rfl | rfl <;> rfl
        rw [hname]
        exact mem_namesIn_typeText hnames item hitem hinner

end ApiClientGen.Client
