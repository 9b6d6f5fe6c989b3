/-
Reading an interface description.

Bytes become text, text becomes a value in the notation of its format, and the value is
a description if it is a mapping that names a known version.  Every failure keeps its
cause; the message is made from it in one place.
-/
import ApiClientGen.Json.Reader
import ApiClientGen.Source.Format
import ApiClientGen.Source.Version
import ApiClientGen.Yaml.Reader

namespace ApiClientGen.Source

open ApiClientGen.Document ApiClientGen.Files

/-- An interface description with its version. -/
structure Description where
  version : Version
  content : Fields Value
  deriving Repr

/-- Why some bytes are no interface description. -/
inductive Cause where
  /-- The bytes are no text. -/
  | notText
  /-- The text is not JSON. -/
  | json (fault : Json.Fault)
  /-- The text is not YAML. -/
  | yaml (fault : Yaml.Fault)
  /-- The value is none that a document may hold. -/
  | raw (fault : RawFault)
  /-- The value is no mapping. -/
  | notMapping (typeName : String)
  /-- The version is missing or not supported. -/
  | version (fault : VersionFault)
  deriving DecidableEq, Repr

/-- Why no interface description could be read. -/
inductive Failure where
  /-- There is no file at the path. -/
  | missing (path : Path)
  /-- The bytes at the path are no description in the format. -/
  | unreadable (path : Path) (format : Format) (cause : Cause)
  deriving DecidableEq, Repr

/-- What is said of a text that exhausts its reader. -/
def exhausted : String := "слишком глубокая или циклическая структура"

namespace Cause

/-- What is wrong, in words; a text that breaks the rules of its format is marked with the format. -/
def message : Cause → String
  | notText => "<utf8>"
  | json .malformed => "<json>"
  | json (.integer fault) => fault.message
  | json .tooDeep => exhausted
  | yaml (.integer fault) => fault.message
  | yaml (.fraction text) => "could not convert string to float: " ++ Text.quoted text
  | yaml (.calendar fault) => fault.message
  | yaml .codePoint => "chr() arg not in range(0x110000)"
  | yaml .tooDeep => exhausted
  | yaml (.raw fault) => fault.message
  | yaml _ => "<yaml>"
  | raw fault => fault.message
  | notMapping typeName => "ожидался объект верхнего уровня, получено " ++ typeName
  | version fault => fault.message

/-- Whether the reader of a format says by itself what is wrong; on some values it only gives up. -/
def isExpected : Cause → Bool
  | yaml .truthValue | yaml .timestamp | yaml .timestampMapping | yaml .emptyNumber
  | yaml .tooManyParts | yaml .codeOverflow => false
  | _ => true

end Cause

namespace Failure

/-- Whether a failure is one that is reported. -/
def isExpected : Failure → Bool
  | .missing _ => true
  | .unreadable _ _ cause => cause.isExpected

/-- What is wrong, in words. -/
def message : Failure → String
  | missing path => "[read] " ++ path.text ++ ": файл спецификации не найден"
  | unreadable path format cause =>
    "[read] " ++ path.text ++ ": ошибка разбора " ++ format.name ++ ": " ++ cause.message

end Failure

/-- The value that a text stands for in a format, as it is read. -/
def Format.read (text : String) : Format → Except Cause RawValue
  | .json => ((Json.read text).map Value.raw).mapError .json
  | .yaml => (Yaml.read (depthLimit + 1) text).mapError .yaml

/-- The description that some bytes are in a format. -/
def describe (format : Format) (bytes : ByteArray) : Except Cause Description := do
  let some text := String.fromUTF8? bytes | throw .notText
  let value ← ((← format.read text).plain 0).mapError .raw
  match value with
  | .mapping content => return ⟨← (Version.ofFields content).mapError .version, content⟩
  | other => throw (.notMapping other.typeName)

/-- The description in the bytes at a path. -/
def read (path : Path) (bytes : ByteArray) : Except Failure Description :=
  let format := Format.ofPath path
  (describe format bytes).mapError (.unreadable path format)

end ApiClientGen.Source
