/-
A tree of files.

A place in the tree is the list of the names that lead to it from the root, which is
always a directory.  A path is followed name by name, from the root or from the
directory that the program runs in: a step up leads to the directory above, and every
name but the last must be that of a directory.
-/
import ApiClientGen.Files.System

namespace ApiClientGen.Files

open ApiClientGen.Text

/-- What stands at a place. -/
inductive Entry where
  | directory
  | file (content : ByteArray)
  deriving Inhabited

/-- The names that lead to something from the root. -/
abbrev Place := List String

/-- The files and directories below the root, by their places. -/
structure Tree where
  entries : List (Place × Entry) := []
  deriving Inhabited

namespace Tree

/-- What stands at a place. -/
def get? (t : Tree) (place : Place) : Option Entry :=
  if place = [] then some .directory else t.entries.lookup place

/-- The tree with something put at a place, in place of what was there. -/
def put (t : Tree) (place : Place) (e : Entry) : Tree :=
  if t.entries.any fun x => x.1 == place then
    ⟨t.entries.map fun x => if x.1 = place then (place, e) else x⟩
  else ⟨t.entries ++ [(place, e)]⟩

/-- The most bytes a name may have. -/
def nameLimit : Nat := 255

/-- The place that a name leads to from a place; there need not be anything. -/
def follow (t : Tree) (place : Place) (name : String) : Except AccessFault Place :=
  match t.get? place with
  | none => .error .missing
  | some (.file _) => .error .notDirectory
  | some .directory =>
    if name = "." then .ok place
    else if name = ".." then .ok place.dropLast
    else if nameLimit < name.utf8ByteSize then .error .nameTooLong
    else .ok (place ++ [name])

/-- The place that a path leads to. -/
def locate (here : Place) (t : Tree) (path : String) : Except AccessFault Place :=
  match pieces '/' path with
  | [] | [""] => .error .missing
  | "" :: rest => (names rest).foldlM t.follow []
  | all => (names all).foldlM t.follow here
where
  /-- The names of a path; a slash at its end stands for a step into a directory. -/
  names (all : List String) : List String :=
    all.filter (· ≠ "") ++ (if all.getLast? = some "" then ["."] else [])

/-- What a path leads to, if there is anything. -/
def lookUp (here : Place) (t : Tree) (path : String) : Except AccessFault Entry := do
  match t.get? (← t.locate here path) with
  | some e => return e
  | none => throw .missing

/-- Whether a path leads to something. -/
def isThere (here : Place) (t : Tree) (path : String) : Bool := (t.lookUp here path).toBool

/-- Whether a path leads to a directory. -/
def isDirectory (here : Place) (t : Tree) (path : String) : Bool :=
  match t.lookUp here path with
  | .ok .directory => true
  | _ => false

/-- The content of the file that a path leads to. -/
def read (here : Place) (t : Tree) (path : String) : Except AccessFault ByteArray := do
  match ← t.lookUp here path with
  | .file content => return content
  | .directory => throw .isDirectory

/-- The tree with a file written. -/
def write (here : Place) (t : Tree) (path content : String) : Except AccessFault Tree := do
  let place ← t.locate here path
  match t.get? place with
  | some .directory => throw .isDirectory
  | _ => return t.put place (.file content.toUTF8)

/-- Goes on from a place by a name, and makes a directory if nothing is there. -/
def enter (s : Tree × Place) (name : String) : Except AccessFault (Tree × Place) := do
  let place ← s.1.follow s.2 name
  match s.1.get? place with
  | some .directory => return (s.1, place)
  | some (.file _) => throw .notDirectory
  | none => return (s.1.put place .directory, place)

/-- The tree with a directory made, and those above it. -/
def makeDirectories (here : Place) (t : Tree) (path : String) : Except AccessFault Tree := do
  let p := Path.ofString path
  return (← p.names.foldlM enter (t, if p.root = "" then here else [])).1

/-- Changes a tree if nothing is wrong. -/
def change (f : Tree → Except AccessFault Tree) : StateM Tree (Except AccessFault Unit) :=
  modifyGet fun t =>
    match f t with
    | .ok t' => (.ok (), t')
    | .error fault => (.error fault, t)

/-- The files of a tree, for a program that runs in a place. -/
def fileSystem (here : Place) : FileSystem (StateM Tree) where
  isThere path := return (← get).isThere here path
  isDirectory path := return (← get).isDirectory here path
  read path := return (← get).read here path
  write path content := change fun t => t.write here path content
  makeDirectories path := change fun t => t.makeDirectories here path

end Tree

end ApiClientGen.Files
