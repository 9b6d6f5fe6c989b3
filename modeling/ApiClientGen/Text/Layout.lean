/-
Blanks, lines and indentation.

A character is blank when it is a space separator or moves to another line or
column: the set is wider than ASCII, and everything that trims or asks whether a
text is blank uses this one set.

A text is cut into lines after every character that ends a line, where a carriage
return and the line feed behind it end one line together.  Indentation goes in
front of every line that shows something; blank lines stay as they are.
-/
import ApiClientGen.Text.RangeTable

namespace ApiClientGen.Text

/-! ### Blanks -/

/-- The code points of blank characters. -/
def blankTable : RangeTable := [
  (9, 13), (28, 32), (133, 133), (160, 160), (5760, 5760), (8192, 8202), (8232, 8233),
  (8239, 8239), (8287, 8287), (12288, 12288)]

/-- Whether a character is blank. -/
def isBlank (c : Char) : Bool := blankTable.covers c.toNat

/-- A text without its blank beginning. -/
def trimStart (s : List Char) : List Char := s.dropWhile isBlank

/-- A text without what it ends in, as long as `p` holds. -/
def dropEndWhile (p : Char → Bool) (s : List Char) : List Char :=
  (s.reverse.dropWhile p).reverse

/-- A text without its blank end. -/
def trimEnd (s : List Char) : List Char := dropEndWhile isBlank s

/-- A text without blanks around it. -/
def trim (s : List Char) : List Char := trimEnd (trimStart s)

/-- A text without the characters around it for which `p` holds. -/
def trimBy (p : Char → Bool) (s : List Char) : List Char := dropEndWhile p (s.dropWhile p)

@[inherit_doc trim]
def trimmed (s : String) : String := String.ofList (trim s.toList)

theorem trimmed_toList (s : String) : (trimmed s).toList = trim s.toList := by
  simp [trimmed]

/-- What is dropped at the end all satisfies the test. -/
theorem dropEndWhile_append (p : Char → Bool) (s : List Char) :
    ∃ t, s = dropEndWhile p s ++ t ∧ ∀ c ∈ t, p c = true := by
  refine ⟨(s.reverse.takeWhile p).reverse, ?_, ?_⟩
  · rw [dropEndWhile, ← List.reverse_append, List.takeWhile_append_dropWhile, List.reverse_reverse]
  · intro c hc
    have h := List.all_takeWhile (p := p) (l := s.reverse)
    exact List.all_eq_true.mp h c (List.mem_reverse.mp hc)

/-! ### Lines -/

/-- Whether a character ends a line. -/
def isLineEnd (c : Char) : Bool :=
  let n := c.toNat
  (10 ≤ n && n ≤ 13) || (28 ≤ n && n ≤ 30) || n == 133 || n == 8232 || n == 8233

/-- The lines of a text, each with its line end. -/
def lines : List Char → List (List Char)
  | [] => []
  | '\r' :: '\n' :: rest => ['\r', '\n'] :: lines rest
  | c :: rest =>
    if isLineEnd c then [c] :: lines rest
    else
      match lines rest with
      | [] => [[c]]
      | line :: more => (c :: line) :: more

/-- The lines put together again are the text. -/
theorem flatten_lines (s : List Char) : (lines s).flatten = s := by
  fun_induction lines s <;> simp_all

/-- The first line of a text without its line end. -/
def firstLine (s : List Char) : List Char := s.takeWhile fun c => !isLineEnd c

/-- Four blanks, one step of indentation. -/
def indentStep : List Char := [' ', ' ', ' ', ' ']

/-- One line moved one step to the right, unless it is blank. -/
def indentLine (line : List Char) : List Char :=
  if line.all isBlank then line else indentStep ++ line

/-- A text with every line that is not blank moved one step to the right. -/
def indented (s : String) : String :=
  String.ofList ((lines s.toList).flatMap indentLine)

/-- A text with every tab written as one step of indentation. -/
def expandTabs (s : String) : String :=
  String.ofList (s.toList.flatMap fun c => if c = '\t' then indentStep else [c])

end ApiClientGen.Text
