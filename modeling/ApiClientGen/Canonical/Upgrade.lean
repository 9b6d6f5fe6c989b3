/-
Descriptions of any version in canonical form.

The canonical form is itself a description of the version it is written in, so that
bringing it into canonical form once more is possible.  On the way the parameters of a
description of version 2 are compared by their names and places, which may have no text;
then nothing comes of it.
-/
import ApiClientGen.Canonical.Openapi31
import ApiClientGen.Canonical.Swagger.Description
import ApiClientGen.Source.Reading

namespace ApiClientGen.Canonical

open ApiClientGen.Document ApiClientGen.Source

/-- The canonical form of a description, if all that is compared has a text. -/
def upgrade (d : Description) : CanonicalDocument :=
  match d.version with
  | .swagger2 => .ofSwagger d.content
  | .openapi30 => .ofFields d.content
  | .openapi31 => .ofOpenapi31 d.content

/-- Whether all parameters that are compared in a description have names and places with texts. -/
def hasKeys (d : Description) : Bool :=
  match d.version with
  | .swagger2 => (Swagger.comparedEntries d.content).all Swagger.Entry.hasKey
  | .openapi30 => true
  | .openapi31 => true

/-- Brings a description into canonical form. -/
def canonicalize (d : Description) : Except TextFault CanonicalDocument :=
  if hasKeys d then .ok (upgrade d) else .error .longInteger

/-- A description in canonical form as a description of its version. -/
def CanonicalDocument.description (d : CanonicalDocument) : Description := ⟨.openapi30, d.fields⟩

end ApiClientGen.Canonical
