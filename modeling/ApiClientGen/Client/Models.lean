/-
The models of the generated client.

Enumerations and records become classes.  Aliases are evaluated when the file is loaded, so
they come behind all classes, and an alias behind the one it refers to.  Models that refer
to each other are completed at the end.

Members of a class have distinct names: one that is taken gets the first number that is
free.  A field whose name differs from that of its property carries the property's name as
an alias.
-/
import ApiClientGen.Client.Literal
import ApiClientGen.Client.Names
import ApiClientGen.Client.Types
import ApiClientGen.Code.Model
import ApiClientGen.Settings.Generation
import ApiClientGen.Text.Layout

namespace ApiClientGen.Client

open ApiClientGen.Code ApiClientGen.Document ApiClientGen.Naming ApiClientGen.Settings
open ApiClientGen.Spec ApiClientGen.Text

/-- Distinct names: of each name the first number that is free, in the order of the names. -/
def distinctNames (names : List String) : List String :=
  names.foldl (fun done name => done ++ [firstFree done name fun n => name ++ "_" ++ toString n]) []

/-! ### Enumerations -/

/-- Whether a value is an integer. -/
def isInteger : EnumValue → Bool
  | .integer _ => true
  | .text _ => false

/-- The literal of a value of an enumeration. -/
def enumLiteral (integers : Bool) (value : EnumValue) : String :=
  if integers then value.asText else quoted value.asText

/-- The class for an enumeration. -/
def enumClass (name : String) (description : Option String) (values : List EnumValue) : ClassDef :=
  let integers := !values.isEmpty && values.all isInteger
  let members := distinctNames (values.map fun v => memberName v.asText)
  {
    name
    bases := [if integers then "int" else "str", "Enum"]
    description
    parameters := (members.zip values).map fun m =>
      { name := m.1, default := some (.of (enumLiteral integers m.2)) } }

/-! ### Records -/

/-- The literal of a field that is not given: its default, or nothing if that has no literal. -/
def missingLiteral (f : RecordField) : Except LiteralFault String :=
  return (← deferredLiteral f.default).getD "None"

/-- The default of a field, if it has one. -/
def fieldDefault (identifier : String) (f : RecordField) : Option String :=
  -- A default that cannot be written ends the generation before.
  let missing := (missingLiteral f).toOption.getD "None"
  if identifier ≠ f.name then
    let shown := if f.required then "" else "default=" ++ missing ++ ", "
    some ("Field(" ++ shown ++ "alias=" ++ quoted f.name ++ ")")
  else if f.required then none
  else some missing

/-- A field of a record as an attribute of its class. -/
def fieldParameter (identifier : String) (f : RecordField) : Code.Parameter :=
  let text := typeText "" f.type
  {
    name := identifier
    type := some (.of (if f.required then text else optionalText text))
    default := (fieldDefault identifier f).map .of }

/-- The identifiers of the fields of a record. -/
def fieldIdentifiers (fields : List RecordField) : List String :=
  distinctNames (fields.map fun f => fieldIdentifier f.name)

/-- What the models of a client are set up with. -/
def modelConfig (g : Generation) (additional : Bool) : String :=
  let options := ["populate_by_name=True"]
    ++ (if additional then ["extra=\"allow\""] else [])
    ++ (if g.has .ormlite then ["from_attributes=True"] else [])
  "ConfigDict(" ++ String.intercalate ", " options ++ ")"

/-- The method that makes a record with placeholders for all that is required. -/
def dummyMethod (spec : ApiSpec) (g : Generation) (name : String) (fields : List RecordField) :
    FunctionDef :=
  let values := (fields.filter (·.required)).map fun f =>
    quoted f.name ++ ": " ++ placeholder spec (g.has .fake) "" f.type
  {
    name := "dummy"
    parameters := [{ name := "cls" }]
    response := name
    decorators := ["@classmethod"]
    description := some "Экземпляр с заглушками вместо значений"
    code :=
      { code := "return cls.model_validate(\x7b" ++ String.intercalate ", " values ++ "\x7d)" } }

/-- The attributes of a record that are no fields. -/
def ownParameters (g : Generation) (name : String) (additional : Bool) : List Code.Parameter :=
  [{ name := "model_config", default := some (.of (modelConfig g additional)) }]
    ++ (if g.has .ormlite then
      [{
        name := "__tablename__"
        type := some (.wrapped "ClassVar" ["str"])
        default := some (.of (quoted (snakeCase name))) }]
      else [])

/-- The class for a record. -/
def recordClass (spec : ApiSpec) (g : Generation) (bases : List String) (name : String)
    (description : Option String) (fields : List RecordField) (additional : Bool) : ClassDef :=
  {
    name
    bases := "BaseModel" :: bases
    description
    parameters := ownParameters g name additional
      ++ ((fieldIdentifiers fields).zip fields).map fun f => fieldParameter f.1 f.2
    functions := if g.has .fake then [dummyMethod spec g name fields] else [] }

/-! ### Aliases -/

/-- A name for a type. -/
structure Alias where
  name : String
  type : TypeRef
  description : Option String
  deriving Repr

/-- The aliases of an interface. -/
def aliases (spec : ApiSpec) : List Alias :=
  spec.schemas.filterMap fun e =>
    match e.2.shape with
    | .alias type => some ⟨e.2.name, type, e.2.description⟩
    | _ => none

/-- The names visited so far, and the aliases in the order in which they can be evaluated. -/
structure Ordered where
  visited : List String := []
  aliases : List Alias := []

/-- Adds an alias behind the one it refers to, through chains of at most the length given. -/
def Ordered.add (all : List Alias) : Nat → Ordered → Alias → Ordered
  | 0, o, _ => o
  | length + 1, o, a =>
    if o.visited.contains a.name then o
    else
      let o := { o with visited := a.name :: o.visited }
      let o :=
        match a.type.modelName?.bind fun name => all.find? fun b => b.name = name with
        | some b => Ordered.add all length o b
        | none => o
      { o with aliases := o.aliases ++ [a] }

/-- The aliases in an order in which they can be evaluated. -/
def sortedAliases (all : List Alias) : List Alias :=
  (all.foldl (fun o a => Ordered.add all (all.length + 1) o a) {}).aliases

/-- The line of an alias, under the first line of its description. -/
def aliasLine (a : Alias) : String :=
  let line := a.name ++ " = " ++ typeText "" a.type
  match a.description with
  | none | some "" => line
  | some text => "# " ++ String.ofList (firstLine text.toList) ++ "\n" ++ line

/-! ### The file -/

/-- Why a value of an enumeration cannot be written. -/
def memberFault? : EnumValue → Option LiteralFault
  | .integer i => if isTooLong i then some .tooManyDigits else none
  | .text _ => none

/-- Why a field cannot be written; the default of one that is required is not looked at. -/
def fieldFault? (f : RecordField) : Option LiteralFault :=
  if f.required then none
  else
    match missingLiteral f with
    | .error fault => some fault
    | .ok _ => none

/-- What is met first that keeps the class of a schema from being written. -/
def classFault? (s : Schema) : Option LiteralFault :=
  match s.shape with
  | .enumeration values => values.findSome? memberFault?
  | .record fields _ => fields.findSome? fieldFault?
  | .alias _ => none

/-- The class for a schema, unless it is an alias. -/
def schemaClass? (spec : ApiSpec) (g : Generation) (bases : List String) (s : Schema) :
    Option ClassDef :=
  match s.shape with
  | .enumeration values => some (enumClass s.name s.description values)
  | .record fields additional => some (recordClass spec g bases s.name s.description fields additional)
  | .alias _ => none

/-- The names of the records of an interface. -/
def recordNames (spec : ApiSpec) : List String :=
  spec.schemas.filterMap fun e =>
    match e.2.shape with
    | .record _ _ => some e.2.name
    | _ => none

/-- The imports of the models. -/
def modelImports : List String := [
  "from __future__ import annotations", "", "import datetime as dt", "from enum import Enum",
  "from typing import Any, ClassVar, Dict, List, Optional", "",
  "from pydantic import BaseModel, ConfigDict, Field"]

/-- The names that a file makes known. -/
def exportsLine (names : List String) : String := "__all__ = " ++ quotedList names

/-- The file with the models, whose base classes are given. -/
def modelsFile (spec : ApiSpec) (g : Generation) (bases : List BaseClass) : CodeFile :=
  let file : CodeFile := { path := g.packageName ++ "/models.py", imports := modelImports }
  let file := (bases.filterMap (·.importLine)).foldl CodeFile.addImport file
  let records := recordNames spec
  let completion :=
    if records.isEmpty then []
    else [{
      code := "# Разрешение ссылок между моделями\n"
        ++ String.intercalate "\n" (records.map (· ++ ".model_rebuild()"))
      order := -100 }]
  let exported := (Fields.keys spec.schemas).mergeSort (· ≤ ·)
  { file with
    classes := spec.schemas.filterMap fun e => schemaClass? spec g (bases.map (·.name)) e.2
    blocks := (sortedAliases (aliases spec)).map (fun a => { code := aliasLine a, order := -10 })
      ++ completion
      ++ [{ code := exportsLine exported, order := -200 }] }

end ApiClientGen.Client
