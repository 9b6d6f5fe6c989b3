/-
Formats of interface descriptions.

The extension of a file's name decides how it is read.  An extension that is unknown,
or none at all, is read as YAML; only the former deserves a warning.  A name whose
extension is no text cannot be judged.
-/
import ApiClientGen.Files.Path
import ApiClientGen.Number.Reading

namespace ApiClientGen.Source

open ApiClientGen.Files

/-- A format in which interface descriptions are written. -/
inductive Format where
  | yaml
  | json
  deriving DecidableEq, Repr

namespace Format

/-- The name of a format. -/
def name : Format → String
  | yaml => "yaml"
  | json => "json"

/-- The formats of known extensions, in small letters. -/
def known : List (String × Format) := [(".yaml", .yaml), (".yml", .yaml), (".json", .json)]

/-- The format for an extension, and whether the extension is there but unknown. -/
def ofExtension (extension : String) : Format × Bool :=
  match known.lookup (String.ofList (Number.lowered extension.toList)) with
  | some format => (format, false)
  | none => (.yaml, extension ≠ "")

/-- The format of a file by the bytes of its path; none if the extension is no text. -/
def ofPathBytes? (path : List UInt8) : Option (Format × Bool) :=
  let slash : UInt8 := 47
  let dot : UInt8 := 46
  (String.fromUTF8? ⟨(extension dot (lastName slash dot path)).toArray⟩).map ofExtension

/-- The format of a file by its path. -/
def ofPath (path : Path) : Format :=
  (ofExtension (String.ofList (extension '.' path.name.toList))).1

end Format

end ApiClientGen.Source
