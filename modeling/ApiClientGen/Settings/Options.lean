/-
Options of a generation.

Languages and flags are named by fixed texts, and a text that names none is refused with
the kind of option it was meant for.
-/
import ApiClientGen.Text.Quoted

namespace ApiClientGen.Settings

/-- A language that clients are generated in. -/
inductive Language where
  | python
  deriving DecidableEq, Repr

/-- A flag that changes the models of a client. -/
inductive Flag where
  /-- Models can be read from database rows. -/
  | ormlite
  /-- Models have a way to make one with placeholders. -/
  | fake
  deriving DecidableEq, Repr

/-- A text that names no option of its kind. -/
structure UnknownOption where
  kind : String
  text : String
  deriving DecidableEq, Repr

namespace UnknownOption

/-- What is wrong, in words. -/
def message (u : UnknownOption) : String := Text.quoted u.text ++ " is not a valid " ++ u.kind

end UnknownOption

namespace Language

/-- All languages. -/
def all : List Language := [python]

/-- The name of a language. -/
def name : Language → String
  | python => "python"

/-- The language with a name. -/
def ofName (text : String) : Except UnknownOption Language :=
  match all.find? fun l => l.name = text with
  | some l => .ok l
  | none => .error ⟨"TargetLanguage", text⟩

end Language

namespace Flag

/-- All flags, by rising name. -/
def all : List Flag := [fake, ormlite]

/-- The name of a flag. -/
def name : Flag → String
  | ormlite => "ormlite"
  | fake => "fake"

/-- The flag with a name. -/
def ofName (text : String) : Except UnknownOption Flag :=
  match all.find? fun f => f.name = text with
  | some f => .ok f
  | none => .error ⟨"Flag", text⟩

end Flag

end ApiClientGen.Settings
