/-
Cutting texts apart and putting them together.

A text is cut at every occurrence of a separator, so that the pieces joined with the
separator are the text again.
-/

namespace ApiClientGen.Text

/-- The pieces of a text between the occurrences of a separator. -/
def splitOn (separator : Char) : List Char → List (List Char)
  | [] => [[]]
  | c :: rest =>
    if c = separator then [] :: splitOn separator rest
    else
      match splitOn separator rest with
      | [] => [[c]]
      | piece :: more => (c :: piece) :: more

theorem splitOn_ne_nil (separator : Char) (s : List Char) : splitOn separator s ≠ [] := by
  cases s with
  | nil => simp [splitOn]
  | cons c rest =>
    simp only [splitOn]
    split
    · simp
    · split <;> simp

/-- The pieces joined with the separator are the text. -/
theorem intercalate_splitOn (separator : Char) (s : List Char) :
    List.intercalate [separator] (splitOn separator s) = s := by
  induction s with
  | nil => rfl
  | cons c rest ih =>
    have hne := splitOn_ne_nil separator rest
    simp only [splitOn]
    cases hr : splitOn separator rest with
    | nil => exact absurd hr hne
    | cons piece more =>
      rw [hr] at ih
      split
      · next hc =>
        have hstep : List.intercalate [separator] ([] :: piece :: more)
            = separator :: List.intercalate [separator] (piece :: more) := by
          simp [List.intercalate, List.intersperse]
        rw [hstep, ih, hc]
      · cases more <;> simp_all [List.intercalate, List.intersperse]

/-- The pieces of a text between the occurrences of a separator. -/
def pieces (separator : Char) (s : String) : List String :=
  (splitOn separator s.toList).map String.ofList

/-- The pieces of a text between the occurrences of two characters side by side. -/
def splitOnPair (a b : Char) : List Char → List (List Char)
  | c :: d :: rest =>
    if c = a ∧ d = b then [] :: splitOnPair a b rest
    else
      match splitOnPair a b (d :: rest) with
      | [] => [[c]]
      | piece :: more => (c :: piece) :: more
  | s => [s]

/-- The pieces of a text between the first occurrences of a separator, at most as many cuts as given. -/
def splitAtMost (separator : Char) (cuts : Nat) (s : List Char) : List (List Char) :=
  let all := splitOn separator s
  if all.length ≤ cuts then all
  else all.take cuts ++ [List.intercalate [separator] (all.drop cuts)]

/-- What follows the text `start` at the beginning of a text. -/
def after? (start : List Char) (s : List Char) : Option (List Char) :=
  if start.isPrefixOf s then some (s.drop start.length) else none

/-- What follows one text at the beginning of another. -/
def textAfter? (start s : String) : Option String :=
  (after? start.toList s.toList).map String.ofList

/-- Whether one text begins with another. -/
def beginsWith (s start : String) : Bool := start.toList.isPrefixOf s.toList

/-- Whether one text ends in another. -/
def endsIn (s tail : String) : Bool := tail.toList.isSuffixOf s.toList

end ApiClientGen.Text
