/-
Hosts in addresses.

A host between brackets is an address of version six: eight groups of hexadecimal
digits between colons, where one gap may stand for groups of zeros and the last two
groups may be written as an address of version four.  A later version is announced by
its number.  No host holds a character that is another way to write one of the marks
between the parts of an address.
-/
import ApiClientGen.Number.Reading
import ApiClientGen.Text.Quoted
import ApiClientGen.Text.Split

namespace ApiClientGen.Reference

open ApiClientGen.Number ApiClientGen.Text

/-- Why an address has no proper host. -/
inductive HostFault where
  /-- A bracket has no partner. -/
  | unpaired
  /-- The number of a later version is not followed by an address. -/
  | laterVersion
  /-- An address of version four stands between brackets. -/
  | versionFour
  /-- What stands between brackets is no address. -/
  | noAddress (text : String)
  /-- The host holds another way to write a mark. -/
  | hiddenMark (host : String)
  deriving DecidableEq, Repr

namespace HostFault

/-- What is wrong, in words. -/
def message : HostFault → String
  | unpaired => "Invalid IPv6 URL"
  | laterVersion => "IPvFuture address is invalid"
  | versionFour => "An IPv4 address cannot be in brackets"
  | noAddress text => quoted text ++ " does not appear to be an IPv4 or IPv6 address"
  | hiddenMark host =>
    "netloc '" ++ host ++ "' contains invalid characters under NFKC normalization"

end HostFault

namespace Host

/-- Whether a text is one of the four numbers of an address of version four. -/
def isOctet (s : List Char) : Bool :=
  !s.isEmpty && s.all Char.isDigit && s.length ≤ 3 && (s == ['0'] || s.head? != some '0')
    && ofDigits 10 (s.filterMap decimalDigit?) ≤ 255

/-- Whether a text is an address of version four. -/
def isVersionFour (s : List Char) : Bool :=
  let octets := splitOn '.' s
  octets.length == 4 && octets.all isOctet

/-- Whether a text is one group of an address of version six. -/
def isGroup (s : List Char) : Bool := !s.isEmpty && s.length ≤ 4 && s.all isHexDigit

/-- The groups with two in the place of an address of version four at the end. -/
def withoutDots (groups : List (List Char)) : List (List Char) :=
  if (groups.getLast?.map isVersionFour).getD false then groups.dropLast ++ [['0'], ['0']]
  else groups

/-- The groups on the two sides of the first gap: an empty group that is neither the first nor the last. -/
def gap? (groups : List (List Char)) : Option (List (List Char) × List (List Char)) :=
  let i := 1 + ((groups.drop 1).dropLast.takeWhile fun g => !g.isEmpty).length
  if i + 1 < groups.length then some (groups.take i, groups.drop (i + 1)) else none

/-- The groups on one side of a gap, which are none when the gap ends the address. -/
def side (groups : List (List Char)) : List (List Char) := if groups = [[]] then [] else groups

/-- Whether a text is an address of version six; a zone may follow behind a percent sign. -/
def isVersionSix (s : List Char) : Bool :=
  let (address, zone) := splitAtFirst (· == '%') s
  let zoneIsNamed := match zone with
    | none => true
    | some name => !name.isEmpty && !name.contains '%'
  let groups := withoutDots (splitOn ':' address)
  zoneIsNamed && match gap? groups with
    | none => groups.length == 8 && groups.all isGroup
    | some (before, behind) =>
      let given := side before ++ side behind
      given.length ≤ 7 && given.all isGroup

/-- Whether a text is an address of a later version: its number behind a letter, and a point. -/
def isLaterVersion (s : List Char) : Bool :=
  let number := (s.drop 1).takeWhile isHexDigit
  !number.isEmpty && match s.drop (1 + number.length) with
    | '.' :: _ :: _ => true
    | _ => false

/-- What stands between the first brackets. -/
def bracketed (host : List Char) : List Char :=
  let behind := ((splitAtFirst (· == '[') host).2).getD []
  behind.takeWhile (· != ']')

/-- The characters that are another way to write a mark between the parts of an address. -/
def hiddenMarks : RangeTable := [
  (0x2047, 0x2049), (0x2100, 0x2101), (0x2105, 0x2106), (0x2A74, 0x2A74), (0xFE13, 0xFE13),
  (0xFE16, 0xFE16), (0xFE55, 0xFE56), (0xFE5F, 0xFE5F), (0xFE6B, 0xFE6B), (0xFF03, 0xFF03),
  (0xFF0F, 0xFF0F), (0xFF1A, 0xFF1A), (0xFF1F, 0xFF20)]

/-- What is wrong with the brackets of a host. -/
def bracketFault? (host : List Char) : Option HostFault :=
  if host.contains '[' != host.contains ']' then some .unpaired
  else if !host.contains '[' then none
  else
    let inside := bracketed host
    if inside.head? == some 'v' then if isLaterVersion inside then none else some .laterVersion
    else if isVersionFour inside then some .versionFour
    else if isVersionSix inside then none
    else some (.noAddress (String.ofList inside))

/-- What is wrong with a host; the brackets come first. -/
def fault? (host : List Char) : Option HostFault :=
  (bracketFault? host).or <|
    if host.any fun c => hiddenMarks.covers c.toNat then some (.hiddenMark (String.ofList host))
    else none

end Host

end ApiClientGen.Reference
