/-
Interface descriptions in canonical form.

Whatever version a description is written in, it is brought into one form before
anything is taken from it.  The form has a fixed set of parts; a part of the wrong kind
counts as missing, and fields that are extensions are kept apart.  Written out as fields
again, parts that are empty are left out, apart from the two that are always there.
-/
import ApiClientGen.Document.Value
import ApiClientGen.Text.Split

namespace ApiClientGen.Canonical

open ApiClientGen.Document ApiClientGen.Text

/-- The version that the canonical form is written in. -/
def openapiVersion : String := "3.0.3"

/-- Whether a key is that of an extension. -/
def isExtension (key : String) : Bool := beginsWith key "x-"

/-- The extensions among some fields. -/
def extensions (fields : Fields Value) : Fields Value :=
  Fields.ofEntries (fields.filter fun e => isExtension e.1)

/-- The fields of those items that are mappings. -/
def mappings (items : List Value) : List (Fields Value) :=
  items.filterMap fun v => match v with
    | .mapping fields => some fields
    | _ => none

/-- An interface description in canonical form. -/
structure CanonicalDocument where
  info : Fields Value := []
  servers : List (Fields Value) := []
  paths : Fields Value := []
  components : Fields Value := []
  security : List (Fields Value) := []
  tags : List (Fields Value) := []
  externalDocs : Option (Fields Value) := none
  extensions : Fields Value := []
  deriving DecidableEq, Repr

namespace CanonicalDocument

/-- The canonical form of fields that use the canonical version already. -/
def ofFields (fields : Fields Value) : CanonicalDocument where
  info := Fields.fieldsAt fields "info"
  servers := mappings (Fields.itemsAt fields "servers")
  paths := Fields.fieldsAt fields "paths"
  components := Fields.fieldsAt fields "components"
  security := mappings (Fields.itemsAt fields "security")
  tags := mappings (Fields.itemsAt fields "tags")
  externalDocs :=
    match Fields.get? fields "externalDocs" with
    | some (.mapping docs) => some docs
    | _ => none
  extensions := Canonical.extensions fields

/-- A field for some items, unless there are none. -/
def itemsField (key : String) (items : List (Fields Value)) : Fields Value :=
  if items.isEmpty then [] else [(key, .list (items.map .mapping))]

/-- The fields of a description in canonical form that are no extensions. -/
def fixedFields (d : CanonicalDocument) : Fields Value :=
  [("openapi", .string openapiVersion), ("info", .mapping d.info), ("paths", .mapping d.paths)]
    ++ itemsField "servers" d.servers
    ++ (if d.components.isEmpty then [] else [("components", .mapping d.components)])
    ++ itemsField "security" d.security
    ++ itemsField "tags" d.tags
    ++ (d.externalDocs.map fun docs => ("externalDocs", Value.mapping docs)).toList

/-- The fields of a description in canonical form. -/
def fields (d : CanonicalDocument) : Fields Value := Fields.update d.fixedFields d.extensions

end CanonicalDocument

end ApiClientGen.Canonical
