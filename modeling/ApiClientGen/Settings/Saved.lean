/-
Saved settings.

A file of settings holds defaults for the inputs of a generation.  A field that is
missing has its default; a field of the wrong kind is taken as far as it can be, and a
list that is none is a fault, as is a value without a text where one is needed.  Arguments
given to the program win over what was saved.
-/
import ApiClientGen.Files.System
import ApiClientGen.Settings.Generation
import ApiClientGen.Toml.Reader
import ApiClientGen.Toml.Writer

namespace ApiClientGen.Settings

open ApiClientGen.Document ApiClientGen.Files

/-- The name of the file of settings. -/
def settingsFileName : String := "libgen.toml"

/-- Settings as they are saved; names and paths may hold values of any kind. -/
structure Saved where
  name : Value := .null
  spec : Value := .null
  language : String := Language.python.name
  outputDir : Value := .null
  derives : List String := []
  examples : Bool := true
  flags : List String := []
  deriving Repr

/-- What arguments put in place of saved settings; an empty one puts nothing. -/
structure Overrides where
  name : String := ""
  spec : String := ""
  language : String := ""
  outputDir : String := ""
  derives : List String := []
  examples : Option Bool := none
  flags : List String := []
  deriving Repr

/-- Why a file of settings cannot be used. -/
inductive FileFault where
  /-- The file cannot be read. -/
  | access (fault : AccessFault)
  /-- The text is not TOML. -/
  | malformed
  /-- A value that is no list stands where a list belongs. -/
  | notList
  deriving DecidableEq, Repr

/-- Why no settings could be loaded. -/
inductive LoadFailure where
  /-- The file cannot be used. -/
  | file (path : String) (fault : FileFault)
  /-- The reader of the format gave up. -/
  | reader (fault : Toml.Fault)
  /-- The bytes are no text. -/
  | notText
  /-- A value that is to become a text has none. -/
  | text (fault : TextFault)
  deriving DecidableEq, Repr

namespace LoadFailure

/-- What is said of a file, in words. -/
def faultText (path : String) : FileFault → String
  | .access fault => fault.message path
  | .malformed => "<toml>"
  | .notList => "<type>"

/-- What is wrong, in words. -/
def message : LoadFailure → String
  | file path fault =>
    "[config] " ++ path ++ ": некорректный файл конфигурации: " ++ faultText path fault
  | reader _ => "<toml>"
  | notText => "<utf8>"
  | text fault => fault.message

end LoadFailure

namespace Saved

/-! ### Reading -/

/-- Why a table holds no settings. -/
inductive TableFault where
  /-- A value that is no list stands where a list belongs. -/
  | notList
  /-- A value that is to become a text has none. -/
  | text (fault : TextFault)
  deriving DecidableEq, Repr

/-- The texts of the items of a list, of the characters of a text, or of the keys of a table. -/
def textsOf : Value → Except TableFault (List String)
  | .list items => items.mapM fun v => v.shown.mapError .text
  | .string s => .ok (s.toList.map String.singleton)
  | .mapping fields => .ok (Fields.keys fields)
  | _ => .error .notList

/-- The texts under a key; none if the key is missing. -/
def textsAt (t : Fields Value) (key : String) : Except TableFault (List String) :=
  match Fields.get? t key with
  | none => .ok []
  | some v => textsOf v

/-- The text under a key, or the one to take if the key is missing. -/
def textAt (t : Fields Value) (key default : String) : Except TableFault String :=
  match Fields.get? t key with
  | none => .ok default
  | some v => v.shown.mapError .text

/-- The settings in a table. -/
def ofTable (t : Fields Value) : Except TableFault Saved := do
  let at? := Fields.get? t
  return {
    name := (at? "name").getD .null
    spec := (at? "spec").getD .null
    language := ← textAt t "language" Language.python.name
    outputDir := (at? "output_dir").getD .null
    derives := ← textsAt t "derives"
    examples := ((at? "examples").map Value.isSomething).getD true
    flags := ← textsAt t "flags" }

/-- The settings in the bytes of a file. -/
def ofBytes (path : String) (bytes : ByteArray) : Except LoadFailure Saved := do
  let some text := String.fromUTF8? bytes | throw .notText
  match Toml.read text with
  | .error .malformed => throw (.file path .malformed)
  | .error fault => throw (.reader fault)
  | .ok table =>
    match ofTable table with
    | .ok saved => return saved
    | .error .notList => throw (.file path .notList)
    | .error (.text fault) => throw (.text fault)

variable {m : Type → Type} [Monad m]

/-- The file of settings in a directory. -/
def fileIn (directory : String) : String :=
  if Text.endsIn directory "/" then directory ++ settingsFileName
  else directory ++ "/" ++ settingsFileName

/-- The file to load: the one in the directory searched, if it is there, else the one given. -/
def chooseFile (files : FileSystem m) (path searched : String) : m String := do
  if searched ≠ "" ∧ (← files.isDirectory searched) then
    if ← files.isThere (fileIn searched) then return fileIn searched
  return path

/-- Loads settings from a file, if it is there; a directory may be searched for it first. -/
def load (files : FileSystem m) (path searched : String) : ExceptT LoadFailure m (Option Saved) := do
  let path ← ExceptT.lift (chooseFile files path searched)
  if !(← files.isThere path) then return none
  match ← files.read path with
  | .error fault => throw (.file path (.access fault))
  | .ok bytes => return some (← ExceptT.mk (pure (ofBytes path bytes)))

/-! ### Writing -/

/-- A list of texts as a value. -/
def listOf (texts : List String) : Value := .list (texts.map .string)

/-- The settings as a table; what is not set is left out. -/
def table (s : Saved) : Fields Value :=
  let set : Fields Value := [("language", .string s.language), ("derives", listOf s.derives),
    ("examples", .bool s.examples), ("flags", listOf s.flags)]
  set ++ ([("name", s.name), ("spec", s.spec), ("output_dir", s.outputDir)].filter fun e => e.2 ≠ .null)

/-- Why settings could not be saved. -/
inductive SaveFailure where
  | access (fault : AccessFault)
  /-- A value cannot be written. -/
  | unwritable (fault : Toml.WriteFault)
  deriving DecidableEq, Repr

/-- Saves settings to a file; the text written. -/
def save (files : FileSystem m) (path : String) (s : Saved) : ExceptT SaveFailure m String := do
  let written := Toml.write s.table
  match ← files.write path (written.toOption.getD "") with
  | .error fault => throw (.access fault)
  | .ok () =>
    match written with
    | .ok text => return text
    | .error fault => throw (.unwritable fault)

/-! ### Using -/

/-- A value, unless a text is put in its place. -/
def orValue (text : String) (v : Value) : Value := if text = "" then v else .string text

/-- The settings with arguments put in their places. -/
def merge (s : Saved) (o : Overrides) : Saved where
  name := orValue o.name s.name
  spec := orValue o.spec s.spec
  language := if o.language = "" then s.language else o.language
  outputDir := orValue o.outputDir s.outputDir
  derives := if o.derives = [] then s.derives else o.derives
  examples := o.examples.getD s.examples
  flags := if o.flags = [] then s.flags else o.flags

/-- The inputs of a generation with these settings. -/
def inputs (s : Saved) : Except UnknownOption Inputs := do
  let _ ← Language.ofName s.language
  let _ ← s.flags.mapM Flag.ofName
  return {
    name := s.name
    language := s.language
    outputDir := s.outputDir
    derives := s.derives
    examples := s.examples
    flags := s.flags }

end Saved

end ApiClientGen.Settings
