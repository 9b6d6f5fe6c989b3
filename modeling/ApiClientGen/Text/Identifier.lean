/-
Identifiers and reserved words of the generated language.

An identifier begins with a letter or the low line and goes on with letters, marks,
digits and connectors.  The reserved words look like identifiers and are none.
-/
import ApiClientGen.Text.Table.Identifier

namespace ApiClientGen.Text

/-- Whether the characters form an identifier, reserved words included. -/
def isIdentifierChars : List Char → Bool
  | [] => false
  | c :: rest =>
    Table.identifierStart.covers c.toNat
      && rest.all fun d => Table.identifierContinue.covers d.toNat

@[inherit_doc isIdentifierChars]
def isIdentifier (s : String) : Bool := isIdentifierChars s.toList

/-- The words that the generated language reserves. -/
def reservedWords : List String := [
  "False", "None", "True", "and", "as", "assert", "async", "await", "break", "class",
  "continue", "def", "del", "elif", "else", "except", "finally", "for", "from", "global",
  "if", "import", "in", "is", "lambda", "nonlocal", "not", "or", "pass", "raise", "return",
  "try", "while", "with", "yield"]

/-- Whether a text is a reserved word. -/
def isReserved (s : String) : Bool := reservedWords.contains s

end ApiClientGen.Text
