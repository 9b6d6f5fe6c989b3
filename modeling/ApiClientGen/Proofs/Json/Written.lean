/-
Values as JSON text.

A value is written on one line, with a space behind every comma and every colon, and in printable
ASCII characters only: all others are escaped, those that have no code unit of their own as a pair
of two.  A value is portable if other readers than that of JSON can be expected to read it back:
it is finite, has no character that takes two code units, no number without a point that is not
an integer, and no key that is very long.
-/
import ApiClientGen.Document.Display
import ApiClientGen.Proofs.Number.Texts

namespace ApiClientGen.Json

open ApiClientGen.Document ApiClientGen.Number

/-! ### Writing -/

/-- The letter that stands for a character behind a backslash. -/
def escapeLetter? : Char → Option Char
  | '"' => some '"'
  | '\\' => some '\\'
  | '\n' => some 'n'
  | '\r' => some 'r'
  | '\t' => some 't'
  | '\x08' => some 'b'
  | '\x0c' => some 'f'
  | _ => none

/-- The escape of a code unit. -/
def unitEscape (n : Nat) : List Char :=
  ['\\', 'u', Nat.digitChar (n / 4096 % 16), Nat.digitChar (n / 256 % 16),
    Nat.digitChar (n / 16 % 16), Nat.digitChar (n % 16)]

/-- A character that is printed, and ASCII. -/
def IsPrintable (c : Char) : Prop := 32 ≤ c.toNat ∧ c.toNat < 127

instance (c : Char) : Decidable (IsPrintable c) := inferInstanceAs (Decidable (_ ∧ _))

/-- A character between quotes. -/
def escaped (c : Char) : List Char :=
  match escapeLetter? c with
  | some letter => ['\\', letter]
  | none =>
    if IsPrintable c then [c]
    else if c.toNat < 0x10000 then unitEscape c.toNat
    else
      unitEscape (0xD800 + (c.toNat - 0x10000) / 0x400)
        ++ unitEscape (0xDC00 + (c.toNat - 0x10000) % 0x400)

/-- A character is written as it is, behind a backslash, or as a code unit. -/
theorem escaped_cases {c : Char} (hc : c.toNat < 0x10000) :
    (∃ letter, escapeLetter? c = some letter ∧ escaped c = ['\\', letter])
      ∨ (escaped c = [c] ∧ IsPrintable c ∧ c ≠ '"' ∧ c ≠ '\\')
      ∨ escaped c = unitEscape c.toNat := by
  unfold escaped
  split
  · rename_i letter hletter
    exact Or.inl ⟨letter, hletter, rfl⟩
  · rename_i hnone
    split
    · rename_i hprintable
      refine Or.inr (Or.inl ⟨rfl, hprintable, ?_, ?_⟩)
      all_goals
        rintro rfl
        cases hnone
    · exact Or.inr (Or.inr rfl)

/-- A text between quotes. -/
def quoted (s : String) : List Char := '"' :: (s.toList.flatMap escaped ++ ['"'])

/-- A scalar as text; what JSON has no words for is written as a text. -/
def scalarWord : Scalar → List Char
  | .null => "null".toList
  | .bool b => (if b then "true" else "false").toList
  | .int i => (toString i).toList
  | .float .nan => "NaN".toList
  | .float (.infinite negative) => (if negative then "-Infinity" else "Infinity").toList
  | .float x => x.text.toList
  | .string s => quoted s
  | s => quoted s.text

theorem scalarWord_float {x : Binary64} (hx : x.isFinite = true) :
    scalarWord (.float x) = x.text.toList := by
  cases x with
  | finite => rfl
  | nan | infinite => cases hx

mutual

/-- A value as text. -/
def written : Value → List Char
  | .scalar s => scalarWord s
  | .list items => '[' :: (writtenItems items ++ [']'])
  | .mapping fields => '\x7b' :: (writtenFields fields ++ ['\x7d'])

/-- The items of a list. -/
def writtenItems : List Value → List Char
  | [] => []
  | v :: rest => written v ++ moreItems rest

/-- Further items of a list. -/
def moreItems : List Value → List Char
  | [] => []
  | v :: rest => ',' :: ' ' :: (written v ++ moreItems rest)

/-- The fields of a mapping. -/
def writtenFields : List (String × Value) → List Char
  | [] => []
  | (k, v) :: rest => quoted k ++ ':' :: ' ' :: (written v ++ moreFields rest)

/-- Further fields of a mapping. -/
def moreFields : List (String × Value) → List Char
  | [] => []
  | (k, v) :: rest => ',' :: ' ' :: (quoted k ++ ':' :: ' ' :: (written v ++ moreFields rest))

end

/-! ### Portable values -/

/-- Every character of the text is one code unit. -/
def IsBasic (s : String) : Prop := ∀ c ∈ s.toList, c.toNat < 0x10000

-- Decided by the text: there may be an instance that goes through all characters.
instance (s : String) : Decidable (IsBasic s) :=
  decidable_of_iff (s.toList.all (·.toNat < 0x10000) = true) (by simp [IsBasic])

/-- A scalar that JSON has words for, and other readers the same ones. -/
def IsPortableScalar : Scalar → Prop
  | .null | .bool _ | .int _ => True
  | .float x => x.isFinite = true ∧ '.' ∈ x.text.toList
  | .string s => IsBasic s
  | _ => False

instance : DecidablePred IsPortableScalar
  | .null | .bool _ | .int _ => isTrue trivial
  | .float _ => inferInstanceAs (Decidable (_ ∧ _))
  | .string _ => inferInstanceAs (Decidable (IsBasic _))
  | .date _ | .moment _ | .clock _ | .bytes _ => isFalse id

/-- A value of portable scalars whose keys are distinct and not too long. -/
inductive IsPortable : Value → Prop where
  | scalar {s : Scalar} (h : IsPortableScalar s) : IsPortable (.scalar s)
  | list {items : List Value} (h : ∀ v ∈ items, IsPortable v) : IsPortable (.list items)
  | mapping {fields : List (String × Value)} (hkeys : (Fields.keys fields).Nodup)
      (hbasic : ∀ e ∈ fields, IsBasic e.1) (hshort : ∀ e ∈ fields, (quoted e.1).length ≤ 1024)
      (h : ∀ e ∈ fields, IsPortable e.2) : IsPortable (.mapping fields)

mutual

/-- Decides whether a value is portable. -/
def decPortable : (v : Value) → Decidable (IsPortable v)
  | .scalar s =>
    if h : IsPortableScalar s then isTrue (.scalar h)
    else isFalse fun h' => by cases h' with | scalar hs => exact h hs
  | .list items =>
    match decPortableItems items with
    | isTrue h => isTrue (.list h)
    | isFalse h => isFalse fun h' => by cases h' with | list hvs => exact h hvs
  | .mapping fields =>
    if h : (Fields.keys fields).Nodup ∧ (∀ e ∈ fields, IsBasic e.1)
        ∧ ∀ e ∈ fields, (quoted e.1).length ≤ 1024 then
      match decPortableFields fields with
      | isTrue hvs => isTrue (.mapping h.1 h.2.1 h.2.2 hvs)
      | isFalse hvs => isFalse fun h' => by cases h' with | mapping _ _ _ hvs' => exact hvs hvs'
    else isFalse fun h' => by
      cases h' with | mapping hkeys hbasic hshort _ => exact h ⟨hkeys, hbasic, hshort⟩

/-- Decides whether the items of a list are portable. -/
def decPortableItems : (items : List Value) → Decidable (∀ v ∈ items, IsPortable v)
  | [] => isTrue nofun
  | v :: rest =>
    match decPortable v, decPortableItems rest with
    | isTrue hv, isTrue hrest => isTrue (List.forall_mem_cons.mpr ⟨hv, hrest⟩)
    | isFalse hv, _ => isFalse fun h => hv (List.forall_mem_cons.mp h).1
    | _, isFalse hrest => isFalse fun h => hrest (List.forall_mem_cons.mp h).2

/-- Decides whether the values of a mapping are portable. -/
def decPortableFields : (fields : List (String × Value)) → Decidable (∀ e ∈ fields, IsPortable e.2)
  | [] => isTrue nofun
  | (_, v) :: rest =>
    match decPortable v, decPortableFields rest with
    | isTrue hv, isTrue hrest => isTrue (List.forall_mem_cons.mpr ⟨hv, hrest⟩)
    | isFalse hv, _ => isFalse fun h => hv (List.forall_mem_cons.mp h).1
    | _, isFalse hrest => isFalse fun h => hrest (List.forall_mem_cons.mp h).2

end

instance : DecidablePred IsPortable := decPortable

/-! ### Words -/

/-- A word without quotes: characters of numbers and words, of which the first is no mark but a minus. -/
structure IsBareWord (w : List Char) : Prop where
  chars : ∀ c ∈ w, isWordChar c = true
  first : ∃ negative c rest, w = signed negative (c :: rest) ∧ c.isAlphanum = true

theorem IsBareWord.exists_cons {w : List Char} (h : IsBareWord w) : ∃ c rest, w = c :: rest := by
  obtain ⟨negative, c, rest, rfl, -⟩ := h.first
  cases negative with
  | true => exact ⟨'-', c :: rest, rfl⟩
  | false => exact ⟨c, rest, rfl⟩

theorem isBareWord_signed (negative : Bool) {c : Char} {rest : List Char} (hc : c.isDigit = true)
    (hchars : ∀ d ∈ c :: rest, isWordChar d = true) : IsBareWord (signed negative (c :: rest)) where
  chars := isWordChar_of_mem_signed negative hchars
  first := ⟨negative, c, rest, rfl, by simp [Char.isAlphanum, hc]⟩

/-- A portable scalar that is no text is written as a bare word. -/
theorem isBareWord_scalarWord {s : Scalar} (hs : IsPortableScalar s)
    (htext : ∀ text, s ≠ .string text) : IsBareWord (scalarWord s) := by
  cases s with
  | null => exact ⟨List.all_eq_true.mp (by decide), false, 'n', _, rfl, by decide⟩
  | bool b =>
      cases b with
      | true => exact ⟨List.all_eq_true.mp (by decide), false, 't', _, rfl, by decide⟩
      | false => exact ⟨List.all_eq_true.mp (by decide), false, 'f', _, rfl, by decide⟩
  | int i =>
      have hdigits := areDigits_toDigits i.natAbs
      obtain ⟨c, rest, heq⟩ := List.exists_cons_of_ne_nil hdigits.ne_nil
      rw [scalarWord, toList_toString_int, heq]
      rw [heq] at hdigits
      exact isBareWord_signed _ (hdigits.digits c (by simp))
        fun d hd => isWordChar_of_isDigit (hdigits.digits d hd)
  | float x =>
      obtain ⟨word, hword⟩ := exists_fractionWord hs.1 hs.2
      obtain ⟨c, rest, hbody, hc⟩ := word.exists_body
      have hbare := word.unsigned.isWordChar_of_mem_chars
      rw [scalarWord_float hs.1, hword, FractionWord.chars, hbody]
      exact isBareWord_signed _ hc (hbody ▸ hbare)
  | string text => exact absurd rfl (htext text)
  | date | moment | clock | bytes => exact hs.elim

/-- A portable scalar is a text, or it is written as a bare word. -/
theorem text_or_bareWord {s : Scalar} (hs : IsPortableScalar s) :
    (∃ text, s = .string text ∧ IsBasic text)
      ∨ (∀ text, s ≠ .string text) ∧ IsBareWord (scalarWord s) := by
  by_cases htext : ∃ text, s = .string text
  · obtain ⟨text, rfl⟩ := htext
    exact Or.inl ⟨text, rfl, hs⟩
  · have hnone : ∀ text, s ≠ .string text := fun text heq => htext ⟨text, heq⟩
    exact Or.inr ⟨hnone, isBareWord_scalarWord hs hnone⟩

end ApiClientGen.Json
