/-
Descriptions of version 3.1 in canonical form.

In version 3.1 a schema may list several types, null among them; it may give a constant,
a list of examples, and exclusive bounds as numbers.  In the canonical form null is a
flag, several types are alternatives, a constant is an enumeration of one value, the
first example stands alone, and an exclusive bound is a bound with a flag.
-/
import ApiClientGen.Canonical.Document
import ApiClientGen.Canonical.Schemas

namespace ApiClientGen.Canonical

open ApiClientGen.Document

/-- The name of the type of null. -/
def nullType : Value := .string "null"

/-- The types in a list that are not the one of null. -/
def properTypes (types : List Value) : List Value := types.filter (· ≠ nullType)

/--
A schema that lists the types given: one proper type is the type of the schema, several
are alternatives, for which the schemas are given too.
-/
def withTypes (types alternatives : List Value) (fields : Fields Value) : Fields Value :=
  let proper := properTypes types
  let fields :=
    if proper.length < types.length then Fields.set fields "nullable" (.bool true) else fields
  match proper with
  | [] => Fields.erase fields "type"
  | [type] => Fields.set fields "type" type
  | _ => Fields.set (Fields.erase fields "type") "anyOf" (.list alternatives)

/-- A schema with null as its only type allows any value, null included. -/
def withNull (fields : Fields Value) : Fields Value :=
  Fields.set (Fields.erase fields "type") "nullable" (.bool true)

mutual

/-- The schema that says no more than a type. -/
def typeSchema : Value → Value
  | .list types => .mapping (withTypes types (typeSchemas types) [("type", .list types)])
  | type => .mapping (if type = nullType then withNull [("type", type)] else [("type", type)])

/-- The schemas for the proper ones among some types. -/
def typeSchemas : List Value → List Value
  | [] => []
  | type :: rest =>
    if type = nullType then typeSchemas rest else typeSchema type :: typeSchemas rest

end

/-- A schema with at most one type, and with null as a flag. -/
def downgradeType (fields : Fields Value) : Fields Value :=
  match Fields.get? fields "type" with
  | some (.list types) => withTypes types (typeSchemas types) fields
  | some type => if type = nullType then withNull fields else fields
  | none => fields

/-- A schema with its constant as an enumeration. -/
def downgradeConst (fields : Fields Value) : Fields Value :=
  match Fields.get? fields "const" with
  | some value => Fields.set (Fields.erase fields "const") "enum" (.list [value])
  | none => fields

/-- A schema with at most one example. -/
def downgradeExamples (fields : Fields Value) : Fields Value :=
  match Fields.get? fields "examples" with
  | some (.list examples) =>
    let fields := Fields.erase fields "examples"
    match examples with
    | first :: _ => if Fields.has fields "example" then fields else Fields.set fields "example" first
    | [] => fields
  | _ => fields

/-- Whether a value is a number. -/
def isNumber : Value → Bool
  | .scalar (.int _) => true
  | .scalar (.float _) => true
  | _ => false

/-- A schema with an exclusive bound as a bound and a flag. -/
def downgradeBound (exclusive bound : String) (fields : Fields Value) : Fields Value :=
  match Fields.get? fields exclusive with
  | some value =>
    if isNumber value then Fields.set (Fields.set fields bound value) exclusive (.bool true)
    else fields
  | none => fields

/-- The fields of a schema in canonical form. -/
def downgradeSchema (fields : Fields Value) : Fields Value :=
  let fields := downgradeExamples (downgradeConst (downgradeType fields))
  downgradeBound "exclusiveMaximum" "maximum"
    (downgradeBound "exclusiveMinimum" "minimum" fields)

/-- Webhooks that are there, as the extension that keeps them. -/
def keepWebhooks (fields : Fields Value) : Fields Value :=
  match Fields.get? fields "webhooks" with
  | none => fields
  | some .null => fields
  | some webhooks => Fields.set fields "x-webhooks" webhooks

/-- The canonical form of a description of version 3.1. -/
def CanonicalDocument.ofOpenapi31 (content : Fields Value) : CanonicalDocument :=
  .ofFields (keepWebhooks (mapDocument downgradeSchema content))

end ApiClientGen.Canonical
