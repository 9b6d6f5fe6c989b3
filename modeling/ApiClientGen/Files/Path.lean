/-
Paths of files.

A path is a root and the names below it.  Empty names and single dots disappear when a
path is read, double dots stay.  Two slashes at the beginning, and only two, are a root
of their own.
-/
import ApiClientGen.Text.Split

namespace ApiClientGen.Files

open ApiClientGen.Text

/-- A path: its root, which is empty for a relative one, and the names below it. -/
structure Path where
  root : String
  names : List String
  deriving DecidableEq, Repr, Inhabited

namespace Path

/-- The root at the beginning of a text. -/
def rootOf : List Char → String
  | '/' :: '/' :: '/' :: _ => "/"
  | '/' :: '/' :: _ => "//"
  | '/' :: _ => "/"
  | _ => ""

/-- Whether a name between slashes counts. -/
def isName (name : String) : Bool := name != "" && name != "."

/-- The path that a text names. -/
def ofString (s : String) : Path :=
  ⟨rootOf s.toList, (pieces '/' s).filter isName⟩

/-- The text of a path; the path without names is a dot. -/
def text (p : Path) : String :=
  if p.root = "" ∧ p.names = [] then "." else p.root ++ String.intercalate "/" p.names

/-- A path below another one; an absolute path stays what it is. -/
def join (base below : Path) : Path :=
  if below.root ≠ "" then below else ⟨base.root, base.names ++ below.names⟩

/-- The path without its last name. -/
def parent (p : Path) : Path := ⟨p.root, p.names.dropLast⟩

/-- The last name, empty if there is none. -/
def name (p : Path) : String := p.names.getLast?.getD ""

/-- The names with single steps up taken where they lead. -/
def collapse : List String → List String → List String
  | done, [] => done.reverse
  | done, name :: rest =>
    if name = ".." then collapse (done.drop 1) rest else collapse (name :: done) rest

/-- The absolute path without steps up, seen from a directory. -/
def absolute (directory p : Path) : Path :=
  let whole := directory.join p
  ⟨whole.root, collapse [] whole.names⟩

end Path

/--
What a name ends in from its last dot on; nothing if the dot is its first or its last
character.  Names are lists, because the name of a file need not be text.
-/
def extension {α : Type} [DecidableEq α] (dot : α) (name : List α) : List α :=
  let tail := name.reverse.takeWhile (· ≠ dot)
  if tail.isEmpty ∨ name.length ≤ tail.length + 1 then [] else dot :: tail.reverse

/-- The last name of a path given as a list of characters or bytes. -/
def lastName {α : Type} [DecidableEq α] (slash dot : α) (path : List α) : List α :=
  let parts := cut path
  (parts.filter fun p => p ≠ [] ∧ p ≠ [dot]).getLast?.getD []
where
  cut : List α → List (List α)
    | [] => [[]]
    | c :: rest =>
      if c = slash then [] :: cut rest
      else
        match cut rest with
        | [] => [[c]]
        | piece :: more => (c :: piece) :: more

end ApiClientGen.Files
