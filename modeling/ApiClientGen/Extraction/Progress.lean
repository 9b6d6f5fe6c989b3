/-
What an extraction keeps in mind.

While schemas and operations are taken out of a document, names are given to them.  A
name that is taken is never given again, and a schema is kept as soon as it is complete,
after all those that came up inside of it.
-/
import ApiClientGen.Document.Display
import ApiClientGen.Naming.Words
import ApiClientGen.Reference.Resolve
import ApiClientGen.Spec.Model

namespace ApiClientGen.Extraction

open ApiClientGen.Document ApiClientGen.Naming ApiClientGen.Reference ApiClientGen.Spec

/-- Why nothing can be taken out of a document. -/
inductive Failure where
  /-- A reference leads nowhere. -/
  | reference (fault : Reference.Fault)
  /-- A reference names a schema that is not there. -/
  | unknownSchema (ref : String)
  /-- A value that is to become a text has none. -/
  | text (fault : TextFault)
  /-- An extractor refuses the document for a reason of its own. -/
  | refused (reason : String)
  deriving DecidableEq, Repr

namespace Failure

/-- What is wrong, in words. -/
def message : Failure → String
  | reference fault => "[extract] " ++ fault.message
  | unknownSchema ref => "[extract] ссылка на неизвестную схему: " ++ ref
  | text fault => "[extract] " ++ fault.message
  | refused reason => "[extract] " ++ reason

end Failure

/-- What an extraction keeps in mind. -/
structure Progress where
  /-- The names of models that are taken. -/
  models : List String := []
  /-- The names of operations that are taken. -/
  operations : List String := []
  /-- The schemas that are complete, each under its key, in the order in which they were written. -/
  schemas : List (String × Schema) := []

/-- A part of an extraction. -/
abbrev Extract := StateT Progress (Except Failure)

/-- The name of a model for a name in a document, before it is made unique. -/
def modelNameOf (name : String) : String :=
  let pascal := pascalCase name
  let named := if pascal = "" then "Model" else pascal
  if startsWithDigit named then "Model" ++ named else named

/-- The first name for a model that is not taken. -/
def freeModelName (taken : List String) (name : String) : String :=
  let base := modelNameOf name
  firstFree taken base fun n => base ++ toString n

/-- The first name for an operation that is not taken. -/
def freeOperationName (taken : List String) (name : String) : String :=
  firstFree taken name fun n => name ++ "_" ++ toString n

/-- Takes a name for a model. -/
def takeModelName (name : String) : Extract String := do
  let free := freeModelName (← get).models name
  modify fun p => { p with models := free :: p.models }
  return free

/-- Takes a name for an operation. -/
def takeOperationName (name : String) : Extract String := do
  let free := freeOperationName (← get).operations name
  modify fun p => { p with operations := free :: p.operations }
  return free

/-- Writes a schema under a key. -/
def keep (name : String) (schema : Schema) : Extract Unit :=
  modify fun p => { p with schemas := p.schemas ++ [(name, schema)] }

end ApiClientGen.Extraction
