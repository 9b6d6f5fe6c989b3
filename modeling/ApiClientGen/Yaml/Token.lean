/-
Tokens of YAML text.

The text of a document becomes a list of tokens.  Indentation shows in tokens of its
own: blocks have a start and an end although no character stands for them, and a key
is marked in front of the token that turns out to be one.  A text that cannot be cut
into tokens any further ends its list with the reason.
-/
import ApiClientGen.Document.Raw

namespace ApiClientGen.Yaml

open ApiClientGen.Document ApiClientGen.Number

/-- Why a YAML text cannot be read. -/
inductive Fault where
  /-- The text is not YAML, or says something that no plain document value stands for. -/
  | malformed
  /-- An escape names a code point that does not exist. -/
  | codePoint
  /-- An escape names a code that is beyond all bounds. -/
  | codeOverflow
  /-- A scalar tagged as an integer is none. -/
  | integer (fault : IntegerFault)
  /-- A scalar tagged as a fractional number is none. -/
  | fraction (text : String)
  /-- A date or a moment is out of range. -/
  | calendar (fault : CalendarFault)
  /-- A scalar tagged as a truth value is none. -/
  | truthValue
  /-- A scalar tagged as a timestamp is none. -/
  | timestamp
  /-- A mapping is tagged as a timestamp. -/
  | timestampMapping
  /-- A scalar tagged as a number has no digits. -/
  | emptyNumber
  /-- A number to base sixty has more parts than can be added up. -/
  | tooManyParts
  /-- The nesting exhausts the reader. -/
  | tooDeep
  /-- The value is none that a document may hold. -/
  | raw (fault : RawFault)
  deriving DecidableEq, Repr

/-- How a scalar is written. -/
inductive Style where
  | plain
  | quoted
  deriving DecidableEq, Repr

/-- A token. -/
inductive Token where
  | streamEnd
  | version (major : Nat)
  | tagHandle (handle expansion : String)
  | otherDirective
  | documentStart
  | documentEnd
  | blockSequenceStart
  | blockMappingStart
  | blockEnd
  | flowSequenceStart
  | flowSequenceEnd
  | flowMappingStart
  | flowMappingEnd
  | key
  | value
  | blockEntry
  | flowEntry
  | alias (name : String)
  | anchor (name : String)
  | tag (handle : Option String) (suffix : String)
  | scalar (text : String) (style : Style)
  | broken (fault : Fault)
  deriving DecidableEq, Repr

end ApiClientGen.Yaml
