/-
Pointers into documents.

A pointer is a list of names and indexes between slashes.  Leading slashes do not count.
Every byte may be written by its code behind a percent sign, before the pointer is cut
apart; in a part, `~1` stands for a slash and `~0` for a tilde.
-/
import ApiClientGen.Number.Reading
import ApiClientGen.Text.Split
import ApiClientGen.Text.Utf8

namespace ApiClientGen.Reference

open ApiClientGen.Number ApiClientGen.Text

/-- The value of a hexadecimal digit. -/
def hexDigit? (c : Char) : Option Nat :=
  if isHexDigit c then digitValue? c else none

/-- The bytes of a run of ASCII characters, codes behind percent signs read. -/
def percentBytes : List Char → List UInt8
  | '%' :: a :: b :: rest =>
    match hexDigit? a, hexDigit? b with
    | some x, some y => UInt8.ofNat (x * 16 + y) :: percentBytes rest
    | _, _ => 0x25 :: percentBytes (a :: b :: rest)
  | c :: rest => UInt8.ofNat c.toNat :: percentBytes rest
  | [] => []
termination_by s => s.length

/-- Cuts a text into runs of ASCII characters and single characters of other kinds. -/
def asciiRuns (run : List Char) : List Char → List (List Char)
  | [] => [run.reverse]
  | c :: rest =>
    if c.toNat < 128 then asciiRuns (c :: run) rest
    else run.reverse :: [c] :: asciiRuns [] rest

/-- A text with the codes behind percent signs read. -/
def percentDecoded (s : List Char) : List Char :=
  (asciiRuns [] s).flatMap fun run =>
    if run.all fun c => c.toNat < 128 then decodeUtf8 (percentBytes run) else run

/-- A part with every occurrence of a tilde and a digit replaced. -/
def replaceMark (digit : Char) (by_ : Char) : List Char → List Char
  | '~' :: c :: rest =>
    if c = digit then by_ :: replaceMark digit by_ rest else '~' :: replaceMark digit by_ (c :: rest)
  | c :: rest => c :: replaceMark digit by_ rest
  | [] => []
termination_by s => s.length

/-- A part of a pointer with its marks read. -/
def unescaped (part : List Char) : List Char := replaceMark '0' '~' (replaceMark '1' '/' part)

/-- The parts of a pointer; the empty pointer has none. -/
def pointerParts (pointer : String) : List String :=
  if pointer = "" then []
  else
    (splitOn '/' (percentDecoded (pointer.toList.dropWhile (· == '/')))).map fun part =>
      String.ofList (unescaped part)

end ApiClientGen.Reference
