/-
References of version 2 in canonical form.

What is shared by a whole description has moved below the components, so that references
to it begin differently.  They change wherever they stand.
-/
import ApiClientGen.Document.Value
import ApiClientGen.Text.Split

namespace ApiClientGen.Canonical

open ApiClientGen.Document ApiClientGen.Text

/-- What references begin with, and what takes its place. -/
def refStarts : List (String × String) := [
  ("#/definitions/", "#/components/schemas/"),
  ("#/parameters/", "#/components/parameters/"),
  ("#/responses/", "#/components/responses/")]

/-- A reference with a new beginning. -/
def canonicalRef (ref : String) : String :=
  (refStarts.findSome? fun s => (textAfter? s.1 ref).map (s.2 ++ ·)).getD ref

mutual

/-- A value with all references in it in canonical form. -/
def canonicalRefs : Value → Value
  | .scalar s => .scalar s
  | .list vs => .list (canonicalRefItems vs)
  | .mapping fields => .mapping (canonicalRefFields fields)

/-- A list with all references in it in canonical form. -/
def canonicalRefItems : List Value → List Value
  | [] => []
  | v :: rest => canonicalRefs v :: canonicalRefItems rest

/-- Fields with all references in them in canonical form. -/
def canonicalRefFields : List (String × Value) → List (String × Value)
  | [] => []
  | (key, v) :: rest => (key, canonicalRefAt key v) :: canonicalRefFields rest

/-- What stands under a key, with all references in it in canonical form. -/
def canonicalRefAt (key : String) : Value → Value
  | .scalar (.string s) => .string (if key = "$ref" then canonicalRef s else s)
  | .scalar s => .scalar s
  | .list vs => .list (canonicalRefItems vs)
  | .mapping fields => .mapping (canonicalRefFields fields)

end

end ApiClientGen.Canonical
