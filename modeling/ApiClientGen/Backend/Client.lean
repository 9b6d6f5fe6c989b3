/-
Backends.

A backend turns an interface and the settings of a generation into files.  The one here
builds the project of a client and writes it to the destination; a project that cannot be
built leaves no files, and one that cannot be written leaves those written before.
-/
import ApiClientGen.Backend.Registry
import ApiClientGen.Client.Library
import ApiClientGen.Code.Output

namespace ApiClientGen.Backend

open ApiClientGen.Code ApiClientGen.Files ApiClientGen.Settings ApiClientGen.Spec

/-- Why a backend gives up. -/
inductive Cause where
  /-- No client can be generated. -/
  | client (failure : Client.Failure)
  /-- The files cannot be written. -/
  | unwritten (destination : Path)
  /-- The backend refuses for a reason of its own. -/
  | refused (reason : String)
  deriving DecidableEq, Repr

/-- Why nothing was generated in a language. -/
structure Failure where
  language : Language
  cause : Cause
  deriving DecidableEq, Repr

namespace Cause

/-- What is wrong, in words. -/
def message : Cause → String
  | client failure => failure.message
  | unwritten destination => "не удалось записать файлы в " ++ destination.text
  | refused reason => reason

end Cause

namespace Failure

/-- What is wrong, in words. -/
def message (f : Failure) : String := "[generate] " ++ f.language.name ++ ": " ++ f.cause.message

end Failure

/-- A backend. -/
abbrev Generator (m : Type → Type) := ApiSpec → Generation → ExceptT Failure m Unit

variable {m : Type → Type} [Monad m]

/-- The backend that writes clients. -/
def clientGenerator (files : FileSystem m) : Generator m := fun spec g => do
  match Client.library spec g with
  | .error failure => throw ⟨.python, .client failure⟩
  | .ok project =>
    match ← (project.write files g.destination).run with
    | .ok _ => return ()
    | .error _ => throw ⟨.python, .unwritten g.destination⟩

/-- The backends that are built in. -/
def builtIn (files : FileSystem m) : Registry (Generator m) := ⟨[(.python, clientGenerator files)]⟩

/-- Every language has a backend that is built in. -/
theorem verify_builtIn (files : FileSystem m) : (builtIn files).verify = .ok () := rfl

end ApiClientGen.Backend
