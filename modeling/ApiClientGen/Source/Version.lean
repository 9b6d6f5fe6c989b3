/-
Versions of interface descriptions.

A description names its version under one of two keys.  The older key is looked at
first, even if what it says is not supported.
-/
import ApiClientGen.Document.Display
import ApiClientGen.Text.Split

namespace ApiClientGen.Source

open ApiClientGen.Document ApiClientGen.Text

/-- The versions that can be read. -/
inductive Version where
  | swagger2
  | openapi30
  | openapi31
  deriving DecidableEq, Repr

/-- Why a mapping is no description of a known version. -/
inductive VersionFault where
  | swagger (version : String)
  | openapi (version : String)
  | missing
  /-- What stands in place of the version has no text. -/
  | text (fault : TextFault)
  deriving DecidableEq, Repr

namespace Version

/-- The number of a version. -/
def number : Version → String
  | swagger2 => "2.0"
  | openapi30 => "3.0"
  | openapi31 => "3.1"

/-- The version of a description. -/
def ofFields (fields : Fields Value) : Except VersionFault Version :=
  match Fields.get? fields "swagger", Fields.get? fields "openapi" with
  | some v, _ => do
    let version ← v.shown.mapError .text
    if beginsWith version "2" then return swagger2 else throw (.swagger version)
  | none, some v => do
    let version ← v.shown.mapError .text
    if beginsWith version "3.0" then return openapi30
    else if beginsWith version "3.1" then return openapi31
    else throw (.openapi version)
  | none, none => throw .missing

end Version

namespace VersionFault

/-- What is wrong, in words. -/
def message : VersionFault → String
  | swagger version => "неподдерживаемая версия swagger: " ++ version
  | openapi version => "неподдерживаемая версия openapi: " ++ version
  | missing => "в документе нет поля 'swagger' или 'openapi'"
  | text fault => fault.message

end VersionFault

end ApiClientGen.Source
