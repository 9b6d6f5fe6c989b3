/-
Docstrings.

A description becomes a docstring without the blanks around it.  Backslashes are
doubled, a quote at the very end is escaped so that it does not touch the closing
quotes, and so are the quotes of every run of three.  A description of several lines
stands on lines of its own.
-/
import ApiClientGen.Text.Layout

namespace ApiClientGen.Code

open ApiClientGen.Text

/-- Backslashes written twice. -/
def doubleBackslashes (s : List Char) : List Char :=
  s.flatMap fun c => if c = '\\' then ['\\', '\\'] else [c]

/-- A quote at the end written with a backslash. -/
def escapeLastQuote (s : List Char) : List Char :=
  if s.getLast? = some '"' then s.dropLast ++ ['\\', '"'] else s

/-- Runs of three quotes written with backslashes, from left to right. -/
def escapeTripleQuotes : List Char → List Char
  | '"' :: '"' :: '"' :: rest => '\\' :: '"' :: '\\' :: '"' :: '\\' :: '"' :: escapeTripleQuotes rest
  | c :: rest => c :: escapeTripleQuotes rest
  | [] => []

/-- What stands between the quotes of a docstring. -/
def docstringBody (s : List Char) : List Char :=
  escapeTripleQuotes (escapeLastQuote (doubleBackslashes (trim s)))

/-- Three double quotes. -/
def tripleQuote : List Char := ['"', '"', '"']

/-- The docstring of a description; no description has an empty one. -/
def docstring (description : String) : String :=
  if description = "" then ""
  else
    let body := docstringBody description.toList
    let between := if body.contains '\n' then '\n' :: body ++ ['\n'] else body
    String.ofList (tripleQuote ++ between ++ tripleQuote)

end ApiClientGen.Code
