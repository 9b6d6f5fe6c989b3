/-
Addresses in references.

A reference is the address of a document and, behind a hash sign, a pointer into it.
Control characters and spaces in front, and tabs and line ends anywhere, do not count.
The address is put together again from its parts, so that marks of empty parts are
lost.  One that is empty then is the address of the document that the reference is in.
-/
import ApiClientGen.Reference.Host

namespace ApiClientGen.Reference

open ApiClientGen.Number ApiClientGen.Text

/-- The parts of an address. -/
structure Address where
  scheme : List Char
  host : List Char
  path : List Char
  query : List Char
  fragment : List Char
  deriving DecidableEq, Repr

namespace Address

/-- Whether a character may stand in the scheme of an address. -/
def isSchemeChar (c : Char) : Bool := c.isAlphanum || c == '+' || c == '-' || c == '.'

/-- The text without what does not count. -/
def cleaned (s : List Char) : List Char :=
  (s.dropWhile fun c => c.toNat ≤ 32).filter fun c => c != '\t' && c != '\r' && c != '\n'

/-- The scheme in front of a colon, and the rest. -/
def takeScheme (s : List Char) : List Char × List Char :=
  match splitAtFirst (· == ':') s with
  | (scheme, some rest) =>
    if (scheme.head?.map Char.isAlpha).getD false && scheme.all isSchemeChar then
      (lowered scheme, rest)
    else ([], s)
  | _ => ([], s)

/-- The host behind two slashes, and the rest. -/
def takeHost : List Char → List Char × List Char
  | '/' :: '/' :: rest => rest.span fun c => c != '/' && c != '?' && c != '#'
  | s => ([], s)

/-- What stands in front of the first occurrence of a mark, and what stands behind it. -/
def cutAt (mark : Char) (s : List Char) : List Char × List Char :=
  let (before, behind) := splitAtFirst (· == mark) s
  (before, behind.getD [])

/-- The parts of an address with a proper host. -/
def ofText (text : List Char) : Except HostFault Address :=
  let (scheme, s) := takeScheme (cleaned text)
  let (host, s) := takeHost s
  match Host.fault? host with
  | some fault => .error fault
  | none =>
    let (s, fragment) := cutAt '#' s
    let (path, query) := cutAt '?' s
    .ok ⟨scheme, host, path, query, fragment⟩

/-- The schemes whose addresses have a host. -/
def hostSchemes : List String := [
  "ftp", "http", "gopher", "nntp", "telnet", "imap", "wais", "file", "mms", "https", "shttp",
  "snews", "prospero", "rtsp", "rtsps", "rtspu", "rsync", "svn", "svn+ssh", "sftp", "nfs", "git",
  "git+ssh", "ws", "wss"]

/-- The schemes whose addresses have parameters behind the path. -/
def parameterSchemes : List String := [
  "", "ftp", "hdl", "prospero", "http", "imap", "https", "shttp", "rtsp", "rtsps", "rtspu",
  "sip", "sips", "mms", "sftp", "tel"]

/-- The host and the path put together; a path behind a host begins with a slash. -/
def hostAndPath (a : Address) : List Char :=
  if !a.host.isEmpty || hostSchemes.contains (String.ofList a.scheme)
      || ['/', '/'].isPrefixOf a.path then
    let slash := if !a.path.isEmpty && a.path.head? != some '/' then ['/'] else []
    '/' :: '/' :: a.host ++ slash ++ a.path
  else a.path

/-- A mark and what it introduces, unless that is empty. -/
def marked (mark : Char) (s : List Char) : List Char := if s.isEmpty then [] else mark :: s

/-- The address put together. -/
def text (a : Address) : List Char :=
  (if a.scheme.isEmpty then [] else a.scheme ++ [':'])
    ++ a.hostAndPath ++ marked '?' a.query ++ marked '#' a.fragment

/-- The address without an empty parameter at the end of its path. -/
def withoutEmptyParameter (a : Address) : Address :=
  let isLast := a.path.getLast? == some ';'
    && !((a.path.dropLast.reverse.takeWhile (· != '/')).contains ';')
  if parameterSchemes.contains (String.ofList a.scheme) && isLast then
    { a with path := a.path.dropLast }
  else a

end Address

/-- A reference: the document that it leads into, and the pointer inside of it. -/
structure Target where
  document : String
  fragment : String
  deriving DecidableEq, Repr

/-- The target that a reference names. -/
def Target.ofText (ref : String) : Except HostFault Target :=
  if ref.toList.contains '#' then do
    let a ← Address.ofText ref.toList
    let document := { a.withoutEmptyParameter with fragment := [] }
    return ⟨String.ofList document.text, String.ofList a.fragment⟩
  else .ok ⟨ref, ""⟩

/-- Whether the target lies in the document of the reference. -/
def Target.isLocal (t : Target) : Except HostFault Bool := do
  return (← Address.ofText t.document.toList).text.isEmpty

end ApiClientGen.Reference
