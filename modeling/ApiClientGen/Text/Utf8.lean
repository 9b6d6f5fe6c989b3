/-
Text from bytes that may be broken.

Bytes are taken as UTF-8.  A sequence that breaks off, or cannot begin or go on as it
does, is replaced by one mark, and reading goes on with the byte that did not fit.
-/

namespace ApiClientGen.Text

/-- What a first byte says of its sequence: how many bytes follow, its bits, and the bounds of the next byte. -/
structure Lead where
  more : Nat
  bits : Nat
  low : Nat := 0x80
  high : Nat := 0xBF

/-- What a byte says that begins a sequence of several bytes. -/
def lead? (b : Nat) : Option Lead :=
  if 0xC2 ≤ b ∧ b ≤ 0xDF then some ⟨1, b - 0xC0, 0x80, 0xBF⟩
  else if b = 0xE0 then some ⟨2, 0, 0xA0, 0xBF⟩
  else if b = 0xED then some ⟨2, 0xD, 0x80, 0x9F⟩
  else if 0xE1 ≤ b ∧ b ≤ 0xEF then some ⟨2, b - 0xE0, 0x80, 0xBF⟩
  else if b = 0xF0 then some ⟨3, 0, 0x90, 0xBF⟩
  else if 0xF1 ≤ b ∧ b ≤ 0xF3 then some ⟨3, b - 0xF0, 0x80, 0xBF⟩
  else if b = 0xF4 then some ⟨3, 4, 0x80, 0x8F⟩
  else none

/-- The mark for bytes that are no text. -/
def replacement : Char := '\ufffd'

/-- The characters of some bytes; the first argument is the sequence that is being read. -/
def decodeFrom : Option Lead → List UInt8 → List Char
  | none, [] => []
  | some _, [] => [replacement]
  | none, b :: rest =>
    let n := b.toNat
    if n < 0x80 then Char.ofNat n :: decodeFrom none rest
    else
      match lead? n with
      | some l => decodeFrom (some l) rest
      | none => replacement :: decodeFrom none rest
  | some l, b :: rest =>
    let n := b.toNat
    if l.low ≤ n ∧ n ≤ l.high then
      let bits := l.bits * 64 + (n - 0x80)
      if l.more ≤ 1 then Char.ofNat bits :: decodeFrom none rest
      else decodeFrom (some ⟨l.more - 1, bits, 0x80, 0xBF⟩) rest
    else
      replacement ::
        (if n < 0x80 then Char.ofNat n :: decodeFrom none rest
        else
          match lead? n with
          | some next => decodeFrom (some next) rest
          | none => replacement :: decodeFrom none rest)

/-- The characters of some bytes. -/
def decodeUtf8 (bytes : List UInt8) : List Char := decodeFrom none bytes

end ApiClientGen.Text
