/-
Types and placeholders in the generated client.

A type is written as an annotation; models live in a module of their own, so that their
names may need a prefix.  A placeholder is an expression that stands for some value of a
type.  The type of a named model is looked up, and a chain of names that never ends has no
value but the null one.
-/
import ApiClientGen.Spec.Model
import ApiClientGen.Text.Split

namespace ApiClientGen.Client

open ApiClientGen.Spec ApiClientGen.Text

/-! ### Annotations -/

/-- An annotation inside of a wrapper; nothing inside stands for any type. -/
def wrappedIn (wrapper inner : String) : String :=
  if inner = "" then "Any" else wrapper ++ "[" ++ inner ++ "]"

/-- The annotation for a kind without parts. -/
def kindText : TypeKind → String
  | .string => "str"
  | .integer => "int"
  | .number => "float"
  | .boolean => "bool"
  | .date => "dt.date"
  | .datetime => "dt.datetime"
  | .binary => "bytes"
  | .array => "List"
  | .map => "Dict"
  | .model => ""
  | .any => "Any"

/-- The annotation for a type, nullable types apart, from the annotation for its items. -/
def plainTypeText (modelPrefix : String) (kind : TypeKind) (model : Option String) (item : String) :
    String :=
  match kind with
  | .array => wrappedIn "List" item
  | .map => wrappedIn "Dict" ("str, " ++ item)
  | .model => modelPrefix ++ model.getD ""
  | kind => kindText kind

/-- The annotation, extended by null. -/
def nullableText (nullable : Bool) (text : String) : String :=
  if nullable && text != "Any" then wrappedIn "Optional" text else text

/-- The annotation for a type; items that are missing have none but null. -/
def typeText (modelPrefix : String) : TypeRef → String
  | ⟨kind, model, none, nullable⟩ =>
    nullableText nullable (plainTypeText modelPrefix kind model "None")
  | ⟨kind, model, some item, nullable⟩ =>
    nullableText nullable (plainTypeText modelPrefix kind model (typeText modelPrefix item))

/-- The annotation of what may be missing. -/
def optionalText (text : String) : String :=
  if beginsWith text "Optional[" || text == "Any" then text else "Optional[" ++ text ++ "]"

/-- Whether every model that an annotation names has a name. -/
def isNamed : TypeRef → Bool
  | ⟨.model, model, _, _⟩ => model.isSome
  | ⟨.array, _, some item, _⟩ => isNamed item
  | ⟨.map, _, some item, _⟩ => isNamed item
  | _ => true

/-! ### Placeholders -/

/-- The placeholder for a kind that is no model. -/
def kindPlaceholder : TypeKind → String
  | .string => "\"string\""
  | .integer => "0"
  | .number => "0.0"
  | .boolean => "False"
  | .date => "\"2024-01-01\""
  | .datetime => "\"2024-01-01T00:00:00\""
  | .binary => "b\"\""
  | .array => "[]"
  | .map => "\x7b\x7d"
  | .model => "None"
  | .any => "None"

/-- The placeholder for a type, through chains of names of at most the length given. -/
def placeholderWithin (spec : ApiSpec) (fake : Bool) (modelPrefix : String) :
    Nat → TypeRef → String
  | length, type =>
    if type.nullable then "None"
    else if type.kind ≠ .model then kindPlaceholder type.kind
    else
      match type.model.bind spec.schema? with
      | none => "None"
      | some schema =>
        match schema.shape with
        | .enumeration values =>
          if values.isEmpty then "None" else "list(" ++ modelPrefix ++ schema.name ++ ")[0]"
        | .record _ _ =>
          modelPrefix ++ schema.name ++ (if fake then ".dummy()" else ".model_construct()")
        | .alias inner =>
          match length with
          | 0 => "None"
          | length + 1 => placeholderWithin spec fake modelPrefix length inner

/-- The placeholder for a type. -/
def placeholder (spec : ApiSpec) (fake : Bool) (modelPrefix : String) (type : TypeRef) : String :=
  placeholderWithin spec fake modelPrefix spec.schemas.length type

end ApiClientGen.Client
