/-
Reading the arguments of a call.

The arguments of a call stand between its parentheses with commas between them.  A comma inside of
brackets or between quotes belongs to its argument, so that a reader has to count brackets and to
know when a text between quotes ends.  It passes over every literal of a value as a whole, whatever
brackets it stands in, and so it finds the argument behind one.
-/
import ApiClientGen.Proofs.Literal.ReadBack

namespace ApiClientGen.Literal

open ApiClientGen.Client ApiClientGen.Document ApiClientGen.Number ApiClientGen.Reference
open ApiClientGen.Text
open ApiClientGen.Json (afterWord? skipSpaces)

variable {depth : Nat} {s t : List Char}

/-! ### The reader -/

/-- The characters that open a bracket. -/
def openings : List Char := ['(', '[', '\x7b']

/-- The characters that close a bracket. -/
def closings : List Char := [')', ']', '\x7d']

/--
The arguments of a call whose opening parenthesis has been read, up to the closing one at the end.
The reader knows how many brackets are open, the quote that it is behind if there is one, and what
it has read of the argument.
-/
def argumentsFrom : Nat → Option Char → List Char → List Char → Option (List (List Char))
  | _, _, _, [] => none
  | depth, some quote, argument, '\\' :: c :: rest =>
    argumentsFrom depth (some quote) (argument ++ ['\\', c]) rest
  | depth, some quote, argument, c :: rest =>
    argumentsFrom depth (if c = quote then none else some quote) (argument ++ [c]) rest
  | depth, none, argument, c :: rest =>
    if c = '\'' ∨ c = '"' then argumentsFrom depth (some c) (argument ++ [c]) rest
    else if c ∈ openings then argumentsFrom (depth + 1) none (argument ++ [c]) rest
    else if c ∈ closings then
      if 0 < depth then argumentsFrom (depth - 1) none (argument ++ [c]) rest
      else if c = ')' ∧ rest = [] then some [argument] else none
    else if depth = 0 ∧ c = ',' then (argumentsFrom 0 none [] rest).map (argument :: ·)
    else argumentsFrom depth none (argument ++ [c]) rest

/-- The arguments of a call of a function. -/
def callArguments? (function code : String) : Option (List (List Char)) :=
  (afterWord? (function ++ "(") code.toList).bind (argumentsFrom 0 none [])

/-- The text that is given as an argument by its name. -/
def keywordText? (keyword : String) (argument : List Char) : Option String :=
  match (afterWord? (keyword ++ "=") (skipSpaces argument)).bind text? with
  | some (text, []) => some text
  | _ => none

/-- The text that a call of a function is given by the name of an argument. -/
def callText? (function keyword code : String) : Option String :=
  (callArguments? function code).bind fun arguments => arguments.findSome? (keywordText? keyword)

/-! ### What belongs to one argument -/

/-- The reader passes over a text in so many brackets or more: it belongs to the argument. -/
def Passes (depth : Nat) (s : List Char) : Prop :=
  ∀ argument rest, argumentsFrom depth none argument (s ++ rest)
    = argumentsFrom depth none (argument ++ s) rest

theorem Passes.nil (depth : Nat) : Passes depth [] := fun argument rest => by
  rw [List.nil_append, List.append_nil]

theorem Passes.append (hs : Passes depth s) (ht : Passes depth t) : Passes depth (s ++ t) := by
  intro argument rest
  rw [List.append_assoc, hs, ht, List.append_assoc]

/-- A character that is neither a quote nor a bracket nor a comma. -/
def isPlain (c : Char) : Bool := !('\'' :: '"' :: ',' :: openings ++ closings).contains c

theorem Passes.plain (h : ∀ c ∈ s, isPlain c = true) : Passes depth s := by
  induction s with
  | nil => exact .nil depth
  | cons c s ih =>
      obtain ⟨hc, hs⟩ := List.forall_mem_cons.mp h
      intro argument rest
      simp only [isPlain, Bool.not_eq_true', List.contains_eq_mem, decide_eq_false_iff_not,
        List.cons_append, List.mem_cons, List.mem_append, not_or] at hc
      rw [List.cons_append, argumentsFrom, if_neg (by simp [hc]), if_neg hc.2.2.2.1,
        if_neg hc.2.2.2.2, if_neg (by simp [hc]), ih hs, List.append_assoc, List.singleton_append]

/-- A comma inside of brackets is passed over. -/
theorem Passes.comma : Passes (depth + 1) [','] := fun _ _ => rfl

/-- What stands between brackets is passed over with them. -/
theorem Passes.bracketed {first last : Char} (hbrackets : (first, last) ∈ openings.zip closings)
    (hs : Passes (depth + 1) s) : Passes depth (first :: s ++ [last]) := by
  intro argument rest
  have hbrackets' : first = '(' ∧ last = ')' ∨ first = '[' ∧ last = ']'
      ∨ first = '\x7b' ∧ last = '\x7d' := by
    simpa [openings, closings] using hbrackets
  have hopen : argumentsFrom depth none argument (first :: (s ++ (last :: rest)))
      = argumentsFrom (depth + 1) none (argument ++ [first]) (s ++ (last :: rest)) := by
    rcases hbrackets' with ⟨rfl, rfl⟩ | ⟨rfl, rfl⟩ | ⟨rfl, rfl⟩ <;> rfl
  have hclose : ∀ argument, argumentsFrom (depth + 1) none argument (last :: rest)
      = argumentsFrom depth none (argument ++ [last]) rest := by
    rcases hbrackets' with ⟨rfl, rfl⟩ | ⟨rfl, rfl⟩ | ⟨rfl, rfl⟩ <;> exact fun _ => rfl
  rw [List.append_assoc, List.cons_append, List.cons_append, List.nil_append, hopen, hs, hclose]
  simp

/-- Between quotes, a character that is none of them and no backslash is read over. -/
theorem argumentsFrom_quoted {quote : Char} (h : ∀ c ∈ s, c ≠ '\\' ∧ c ≠ quote)
    (argument rest : List Char) :
    argumentsFrom depth (some quote) argument (s ++ rest)
      = argumentsFrom depth (some quote) (argument ++ s) rest := by
  induction s generalizing argument with
  | nil => rw [List.nil_append, List.append_nil]
  | cons c s ih =>
      obtain ⟨⟨hbackslash, hquote⟩, hs⟩ := List.forall_mem_cons.mp h
      rw [List.cons_append, argumentsFrom, if_neg hquote, ih hs, List.append_assoc,
        List.singleton_append]
      rintro c' rest' rfl
      exact absurd rfl hbackslash

/-- Between quotes, a character in its written form is read over. -/
theorem argumentsFrom_escaped {quote : Char} (hquote : quote = '\'' ∨ quote = '"') (c : Char)
    (argument rest : List Char) :
    argumentsFrom depth (some quote) argument (escaped quote c ++ rest)
      = argumentsFrom depth (some quote) (argument ++ escaped quote c) rest := by
  have hform := isForm_escaped quote c
  generalize escaped quote c = w at hform
  cases hform with
  | backslash => rfl
  | letter => rfl
  | plain _ hbackslash hother => exact argumentsFrom_quoted (by simp [hbackslash, hother]) argument rest
  | code hmark hwidth =>
      have hmarks : ∀ m ∈ codeMarks, 0 < m.2 := by decide
      have hdigits := forall_mem_hexDigits (P := fun c => c ≠ '\\' ∧ c ≠ '\'' ∧ c ≠ '"') (by decide)
        (hmarks _ hmark) hwidth
      rw [List.cons_append, List.cons_append, argumentsFrom,
        argumentsFrom_quoted (fun d hd => ?_), List.append_assoc]
      · rfl
      · obtain ⟨hbackslash, hsingle, hdouble⟩ := hdigits d hd
        rcases hquote with rfl | rfl
        · exact ⟨hbackslash, hsingle⟩
        · exact ⟨hbackslash, hdouble⟩

/-- **A text between quotes** is passed over. -/
theorem passes_quoted (text : String) : Passes depth (quoted text).toList := by
  have hquote := quoteFor_eq text.toList
  intro argument rest
  rw [quoted, String.toList_ofList, quotedChars]
  generalize quoteFor text.toList = quote at hquote
  have hinside : ∀ (s : List Char) argument,
      argumentsFrom depth (some quote) argument (s.flatMap (escaped quote) ++ quote :: rest)
      = argumentsFrom depth none (argument ++ s.flatMap (escaped quote) ++ [quote]) rest := by
    intro s
    induction s with
    | nil =>
        intro argument
        rw [List.flatMap_nil, List.nil_append, argumentsFrom, if_pos rfl, List.append_nil]
        rintro c rest' rfl
        exact absurd hquote (by decide)
    | cons c s ih =>
        intro argument
        rw [List.flatMap_cons, List.append_assoc, argumentsFrom_escaped hquote, ih]
        simp
  rw [List.cons_append, List.cons_append, List.append_assoc, List.singleton_append, argumentsFrom,
    if_pos hquote, hinside]
  simp

/-! ### Literals of values -/

theorem passes_words (h : ∀ c ∈ s, isWordChar c = true) : Passes depth s := by
  have hspecials : ('\'' :: '"' :: ',' :: openings ++ closings).any isWordChar = false := by decide
  refine .plain fun c hc => ?_
  rw [isPlain, Bool.not_eq_true', List.contains_eq_mem, decide_eq_false_iff_not]
  exact fun hspecial => List.any_eq_false.mp hspecials c hspecial (h c hc)

theorem passes_space : Passes depth [' '] := .plain (List.forall_mem_singleton.mpr (by decide))

theorem passes_joined {ls : List String} (h : ∀ l ∈ ls, Passes (depth + 1) l.toList) :
    Passes (depth + 1) (joined ls) := by
  induction ls with
  | nil => exact .nil _
  | cons l ls ih =>
      obtain ⟨hl, hls⟩ := List.forall_mem_cons.mp h
      cases ls with
      | nil =>
          rw [joined_singleton]
          exact hl
      | cons m ls =>
          rw [joined_cons_cons]
          exact hl.append (Passes.comma.append (passes_space.append (ih hls)))

mutual

/-- **A literal** is passed over in any brackets. -/
theorem passes_literal : (d : Deferred) → ∀ (depth : Nat) {text : String},
    deferredLiteral d = .ok (some text) → Passes depth text.toList
  | .scalar x => by
      intro depth text h
      rcases scalarLiteral_cases h with ⟨t, heq⟩ | hwords
      · rw [heq]
        exact passes_quoted t
      · exact passes_words hwords
  | .list items => by
      intro depth text h
      obtain ⟨ls, hls, heq⟩ := exists_parts h
      rw [heq]
      exact .bracketed (by decide : ('[', ']') ∈ openings.zip closings)
        (passes_joined (passes_itemLiterals items depth (forall₂_itemLiterals hls)))
  | .mapping fields => by
      intro depth text h
      obtain ⟨ls, hls, heq⟩ := exists_parts h
      rw [heq]
      exact .bracketed (by decide : ('\x7b', '\x7d') ∈ openings.zip closings)
        (passes_joined (passes_fieldLiterals fields depth (forall₂_fieldLiterals hls)))
  | .nothing => nofun
  | .broken _ => nofun

theorem passes_itemLiterals : (items : List (Unit → Deferred)) → ∀ (depth : Nat) {ls : List String},
    List.Forall₂ (fun d l => deferredLiteral (d ()) = .ok (some l)) items ls →
      ∀ l ∈ ls, Passes (depth + 1) l.toList
  | [] => by
      rintro depth ls ⟨⟩
      exact nofun
  | d :: rest => by
      rintro depth ls (_ | ⟨hl, hls⟩)
      exact List.forall_mem_cons.mpr
        ⟨passes_literal (d ()) (depth + 1) hl, passes_itemLiterals rest depth hls⟩

theorem passes_fieldLiterals : (fields : List (String × (Unit → Deferred))) → ∀ (depth : Nat)
    {ls : List String},
    List.Forall₂
      (fun e l => ∃ text, deferredLiteral (e.2 ()) = .ok (some text) ∧ l = quoted e.1 ++ ": " ++ text)
      fields ls →
      ∀ l ∈ ls, Passes (depth + 1) l.toList
  | [] => by
      rintro depth ls ⟨⟩
      exact nofun
  | (k, d) :: rest => by
      rintro depth ls (_ | ⟨⟨text, hl, heq⟩, hls⟩)
      refine List.forall_mem_cons.mpr ⟨?_, passes_fieldLiterals rest depth hls⟩
      rw [heq, String.toList_append, String.toList_append]
      have hcolon : Passes (depth + 1) ": ".toList := .plain (List.all_eq_true.mp (by decide))
      exact ((passes_quoted k).append hcolon).append (passes_literal (d ()) (depth + 1) hl)

end

/-! ### Calls are read -/

/-- A comma outside of brackets ends an argument. -/
theorem argumentsFrom_comma (hs : Passes 0 s) (argument rest : List Char) :
    argumentsFrom 0 none argument (s ++ ',' :: rest)
      = (argumentsFrom 0 none [] rest).map ((argument ++ s) :: ·) := by
  rw [hs]
  rfl

/-- The closing parenthesis ends the last argument. -/
theorem argumentsFrom_closed (hs : Passes 0 s) (argument : List Char) :
    argumentsFrom 0 none argument (s ++ [')']) = some [argument ++ s] := by
  rw [hs]
  rfl

theorem afterWord?_append (word : String) (rest : List Char) :
    afterWord? word (word.toList ++ rest) = some rest := by
  rw [afterWord?, if_pos (by simp), ← String.length_toList, List.drop_left]

/-- **The arguments of a call** are read as they are written, with the space behind a comma. -/
theorem callArguments?_call (function : String) {l : String} {ls : List String}
    (h : ∀ a ∈ l :: ls, Passes 0 a.toList) :
    callArguments? function (function ++ "(" ++ String.intercalate ", " (l :: ls) ++ ")")
      = some (l.toList :: ls.map fun a => ' ' :: a.toList) := by
  have hread : ∀ (ls : List String) (l : String) (before : List Char), Passes 0 before →
      (∀ a ∈ l :: ls, Passes 0 a.toList) → argumentsFrom 0 none [] (before ++ joined (l :: ls) ++ [')'])
        = some ((before ++ l.toList) :: ls.map fun a => ' ' :: a.toList) := by
    intro ls
    induction ls with
    | nil =>
        intro l before hbefore hall
        rw [joined_singleton, argumentsFrom_closed (hbefore.append (hall l (by simp)))]
        rfl
    | cons m ls ih =>
        intro l before hbefore hall
        obtain ⟨hl, hls⟩ := List.forall_mem_cons.mp hall
        have hsplit : before ++ joined (l :: m :: ls) ++ [')']
            = (before ++ l.toList) ++ ',' :: ([' '] ++ joined (m :: ls) ++ [')']) := by
          rw [joined_cons_cons]
          simp
        rw [hsplit, argumentsFrom_comma (hbefore.append hl), ih m [' '] passes_space hls]
        rfl
  have htext : (function ++ "(" ++ String.intercalate ", " (l :: ls) ++ ")").toList
      = (function ++ "(").toList ++ ([] ++ joined (l :: ls) ++ [')']) := by
    simp [joined]
  rw [callArguments?, htext, afterWord?_append, Option.bind_some, hread ls l [] (.nil 0) h,
    List.nil_append]

/-- A text that is given by its name is read. -/
theorem keywordText?_quoted (keyword : String) {c : Char} (hfirst : keyword.toList.head? = some c)
    (hspace : Json.isSpace c = false) (text : String) :
    keywordText? keyword (keyword ++ "=" ++ quoted text).toList = some text
      ∧ keywordText? keyword (' ' :: (keyword ++ "=" ++ quoted text).toList) = some text := by
  have hread : keywordText? keyword (keyword ++ "=" ++ quoted text).toList = some text := by
    obtain ⟨more, hlist⟩ := List.head?_eq_some_iff.mp hfirst
    have hskip : skipSpaces (keyword ++ "=" ++ quoted text).toList
        = (keyword ++ "=").toList ++ (quoted text).toList := by
      rw [String.toList_append, String.toList_append, hlist, List.cons_append, List.cons_append]
      exact Json.skipSpaces_of_not_isSpace hspace _
    have htext : text? (quoted text).toList = some (text, []) := by
      simpa using text?_quoted text []
    rw [keywordText?, hskip, afterWord?_append, Option.bind_some, htext]
  refine ⟨hread, ?_⟩
  rw [← hread]
  rfl

end ApiClientGen.Literal
