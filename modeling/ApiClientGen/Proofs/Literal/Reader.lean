/-
Reading literals of the generated language.

A literal is a constant, a number, a text between quotes of either kind, a list or a mapping with
texts as keys.  The reader knows these and refuses everything else, also much that the language
allows: what it reads the language reads too, and as the same value.  Numbers are written as in
JSON.  A raw control character does not stand between quotes, so a line that is broken there is
refused; a key that comes twice keeps its first place and takes its last value.

Every step takes at least one character, so the reader may take as many steps as there are
characters.
-/
import ApiClientGen.Proofs.Json.NumberTexts
import ApiClientGen.Proofs.Text.Escapes

namespace ApiClientGen.Literal

open ApiClientGen.Document ApiClientGen.Number ApiClientGen.Text

/-! ### Texts -/

/-- The character that a letter behind a backslash stands for. -/
def letterValue? : Char → Option Char
  | '\\' => some '\\'
  | '\'' => some '\''
  | '"' => some '"'
  | 'n' => some '\n'
  | 'r' => some '\r'
  | 't' => some '\t'
  | _ => none

/-- How many digits the number of a character has, by the letter in front of it. -/
def codeWidth? : Char → Option Nat
  | 'x' => some 2
  | 'u' => some 4
  | 'U' => some 8
  | _ => none

/-- The character with a number of so many digits. -/
def codeValue? (width : Nat) (digits : List Char) : Option Char :=
  let n := ofDigits 16 (digits.filterMap digitValue?)
  if digits.length = width ∧ digits.all isHexDigit ∧ n.isValidChar then some (Char.ofNat n) else none

/-- The characters up to the closing quote, and what stands behind it. -/
def textRest (quote : Char) : List Char → Option (List Char × List Char)
  | [] => none
  | '\\' :: mark :: rest =>
    match letterValue? mark with
    | some c => (textRest quote rest).map fun (s, behind) => (c :: s, behind)
    | none =>
      match codeWidth? mark with
      | none => none
      | some width =>
        match codeValue? width (rest.take width) with
        | none => none
        | some c => (textRest quote (rest.drop width)).map fun (s, behind) => (c :: s, behind)
  | c :: rest =>
    if c = quote then some ([], rest)
    else if c.toNat < 32 ∨ c = '\\' then none
    else (textRest quote rest).map fun (s, behind) => (c :: s, behind)
termination_by s => s.length

/-- A text between quotes. -/
def text? : List Char → Option (String × List Char)
  | c :: rest =>
    if c = '\'' ∨ c = '"' then (textRest c rest).map fun (s, behind) => (String.ofList s, behind)
    else none
  | [] => none

/-! ### Values -/

/-- The words that stand for values. -/
def constants : List (String × Value) := [("None", .null), ("True", .bool true), ("False", .bool false)]

/-- A word for a value. -/
def constant? (s : List Char) : Option (Value × List Char) :=
  constants.findSome? fun w => (Json.afterWord? w.1 s).map fun rest => (w.2, rest)

/-- A value that holds no other values. -/
def leaf? (s : List Char) : Option (Value × List Char) :=
  match text? s with
  | some (text, rest) => some (.string text, rest)
  | none => (constant? s).or (Json.number s).toOption

/-- Parts with commas between them, up to a closing bracket, in at most so many steps. -/
def parts {α : Type} (close : Char) (part : List Char → Option (α × List Char)) :
    Nat → List Char → Option (List α × List Char)
  | 0, _ => none
  | steps + 1, s =>
    match part s with
    | some (a, c :: rest) =>
      if c = close then some ([a], rest)
      else if c = ',' then
        (parts close part steps (Json.skipSpaces rest)).map fun (as, behind) => (a :: as, behind)
      else none
    | _ => none

/-- A field of a mapping. -/
def field (value : List Char → Option (Value × List Char)) (s : List Char) :
    Option ((String × Value) × List Char) :=
  match text? s with
  | some (key, c :: rest) =>
    if c = ':' then (value (Json.skipSpaces rest)).map fun (v, behind) => ((key, v), behind)
    else none
  | _ => none

/-- One value, in at most so many steps. -/
def value : Nat → List Char → Option (Value × List Char)
  | 0, _ => none
  | _ + 1, '[' :: ']' :: rest => some (.list [], rest)
  | steps + 1, '[' :: rest =>
    (parts ']' (value steps) steps rest).map fun (vs, behind) => (.list vs, behind)
  | _ + 1, '\x7b' :: '\x7d' :: rest => some (.mapping [], rest)
  | steps + 1, '\x7b' :: rest =>
    (parts '\x7d' (field (value steps)) steps rest).map fun (fs, behind) =>
      (.mapping (Fields.ofEntries fs), behind)
  | _ + 1, s => leaf? s

/-- The value of a whole text. -/
def read? (text : String) : Option Value :=
  match value (text.length + 1) text.toList with
  | some (v, []) => some v
  | _ => none

/-! ### Texts are read back -/

theorem codeValue?_hexDigits {mark c : Char} {width : Nat} (hmark : (mark, width) ∈ codeMarks)
    (h : c.toNat < 16 ^ width) : codeValue? width (hexDigits width c.toNat) = some c := by
  have hpos : 0 < width := by
    have hall : ∀ m ∈ codeMarks, 0 < m.2 := by decide
    exact hall _ hmark
  obtain ⟨ds, hds, hlength, hsmall, hnumber⟩ := exists_hexDigits hpos h
  have hhex : (ds.map Nat.digitChar).all isHexDigit = true := by
    rw [List.all_map, List.all_eq_true]
    exact fun d hd => (Json.digitValue?_digitChar (hsmall d hd)).2
  have hvalues : (ds.map Nat.digitChar).filterMap digitValue? = ds := by
    calc (ds.map Nat.digitChar).filterMap digitValue? = ds.filterMap some := by
          rw [List.filterMap_map]
          exact List.filterMap_congr fun d hd => (Json.digitValue?_digitChar (hsmall d hd)).1
      _ = ds := List.filterMap_some
  unfold codeValue?
  rw [hds]
  dsimp only
  rw [hvalues, hnumber, if_pos ⟨by rw [List.length_map, hlength], hhex, c.valid⟩, Char.ofNat_toNat]

/-- **A text between quotes** is read back as it is, whatever follows it. -/
theorem textRest_escaped {quote : Char} (hquote : quote = '\'' ∨ quote = '"') (s rest : List Char) :
    textRest quote (s.flatMap (escaped quote) ++ quote :: rest) = some (s, rest) := by
  induction s with
  | nil =>
      have hbackslash : quote ≠ '\\' := by
        obtain rfl | rfl := hquote <;> decide
      rw [List.flatMap_nil, List.nil_append, textRest, if_pos rfl]
      rintro mark rest' rfl
      exact absurd rfl hbackslash
  | cons c s ih =>
      rw [List.flatMap_cons, List.append_assoc]
      have hform := isForm_escaped quote c
      generalize escaped quote c = w at hform
      cases hform with
      | backslash hc =>
          have hletter : letterValue? c = some c := by
            obtain rfl | rfl := hc
            · rfl
            · obtain rfl | rfl := hquote <;> rfl
          simp only [List.cons_append, List.nil_append, textRest, hletter, ih, Option.map_some]
      | @letter l hl =>
          have hletter : letterValue? l = some c := by
            simp only [breakLetters, List.mem_cons, Prod.mk.injEq, List.not_mem_nil, or_false] at hl
            obtain ⟨rfl, rfl⟩ | ⟨rfl, rfl⟩ | ⟨rfl, rfl⟩ := hl <;> rfl
          simp only [List.cons_append, List.nil_append, textRest, hletter, ih, Option.map_some]
      | plain hprintable hbackslash hother =>
          have hlarge := (not_isLineEnd_of_isPrintable hprintable).2.2
          rw [List.singleton_append, textRest, if_neg hother, if_neg (by simp [hbackslash]; omega), ih,
            Option.map_some]
          rintro mark rest' rfl
          exact absurd rfl hbackslash
      | @code mark width hmark hwidth =>
          have hlength : (hexDigits width c.toNat).length = width := by
            have hpos : ∀ m ∈ codeMarks, 0 < m.2 := by decide
            obtain ⟨ds, hds, hlength, -⟩ := exists_hexDigits (hpos _ hmark) hwidth
            rw [hds, List.length_map, hlength]
          have hwidths : letterValue? mark = none ∧ codeWidth? mark = some width := by
            simp only [codeMarks, List.mem_cons, Prod.mk.injEq, List.not_mem_nil, or_false] at hmark
            obtain ⟨rfl, rfl⟩ | ⟨rfl, rfl⟩ | ⟨rfl, rfl⟩ := hmark <;> exact ⟨rfl, rfl⟩
          simp only [List.cons_append, textRest, hwidths.1, hwidths.2]
          rw [List.take_left' hlength, List.drop_left' hlength, codeValue?_hexDigits hmark hwidth]
          dsimp only
          rw [ih, Option.map_some]

theorem text?_quoted (s : String) (rest : List Char) :
    text? ((quoted s).toList ++ rest) = some (s, rest) := by
  rw [quoted, String.toList_ofList, quotedChars, List.cons_append, List.cons_append,
    List.append_assoc, List.singleton_append, text?, if_pos (quoteFor_eq s.toList),
    textRest_escaped (quoteFor_eq s.toList), Option.map_some]
  exact congrArg (fun text => some (text, rest)) String.ofList_toList

end ApiClientGen.Literal
