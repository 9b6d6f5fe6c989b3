/-
The members of the models file.

Every schema of an interface has one member in the file.  Enumerations and records have their
classes, in the order of the schemas, and aliases have their lines behind all classes.  What
completes the records comes next, and the names that the file makes known come last.  The members
are collected by kinds and put in their places by their orders alone; nothing is lost by that,
since aliases in order are the same aliases, and classes and aliases together are all schemas.
-/
import ApiClientGen.Proofs.Client.ModelsFile
import ApiClientGen.Proofs.Text.Escapes

namespace ApiClientGen.Text

/-! ### Texts without marks -/

end ApiClientGen.Text

namespace ApiClientGen.Client

open ApiClientGen.Canonical ApiClientGen.Code ApiClientGen.Extraction ApiClientGen.Settings
  ApiClientGen.Spec ApiClientGen.Text

variable {spec : ApiSpec} {g : Generation} {bases : List BaseClass}

/-! ### Schemas and their members -/

/-- Whether a schema is a name for a type. -/
def isAlias (s : Schema) : Bool :=
  match s.shape with
  | .alias _ => true
  | _ => false

/-- The enumerations and the records of an interface, in their order. -/
def classSchemas (spec : ApiSpec) : List Schema :=
  (spec.schemas.map Prod.snd).filter fun s => !isAlias s

/-- A class is that of an enumeration or of a record. -/
def IsClassOf (s : Schema) (c : ClassDef) : Prop :=
  c.name = s.name ∧ c.description = s.description
    ∧ match s.shape with
      | .enumeration _ => "Enum" ∈ c.bases
      | .record _ _ => "BaseModel" ∈ c.bases
      | .alias _ => False

/-- The line that makes names known. -/
def namesLine (names : List String) : String :=
  "__all__ = [" ++ String.intercalate ", " (names.map fun name => "'" ++ name ++ "'") ++ "]"

/-- What completes the records with the names given, a line for each of them. -/
def completion (records : List String) : List String :=
  if records.isEmpty then []
  else ["# Разрешение ссылок между моделями\n"
    ++ String.intercalate "\n" (records.map (· ++ ".model_rebuild()"))]

/-- **The members of a models file** for an interface. -/
structure Layout (spec : ApiSpec) where
  /-- The classes of the enumerations and the records, in the order of the schemas. -/
  classes : List ClassDef
  isClassOf : List.Forall₂ IsClassOf (classSchemas spec) classes
  /-- The aliases, each of them once. -/
  assigned : List Alias
  perm_assigned : assigned.Perm (aliases spec)
  /-- The names of all schemas, in ascending order. -/
  exported : List String
  perm_exported : exported.Perm (Fields.keys spec.schemas)
  ascending : exported.Pairwise (· < ·)

/-- The texts of the members, from top to bottom. -/
def Layout.members (l : Layout spec) : List String :=
  l.classes.map ClassDef.render ++ l.assigned.map aliasLine ++ completion (recordNames spec)
    ++ [namesLine l.exported]

end ApiClientGen.Client
