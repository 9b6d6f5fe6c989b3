/-
Taking an interface out of a document.

The schemas of the whole document get their names first, so that they can refer to each
other; then they become models one after the other, and after them the operations.
-/
import ApiClientGen.Canonical.Document
import ApiClientGen.Extraction.Operations

namespace ApiClientGen.Extraction

open ApiClientGen.Canonical ApiClientGen.Document ApiClientGen.Reference ApiClientGen.Spec

/-- The names of the models for the schemas with the names given, each the first that is free. -/
def modelNames (schemas : List String) : Fields String :=
  schemas.foldl (fun named name => named ++ [(name, freeModelName (named.map Prod.snd) name)]) []

namespace Scope

variable (s : Scope)

/-- Makes the models for the schemas of the whole document. -/
def components (schemas : Fields Node) : Extract Unit :=
  schemas.forM fun e => do
    match Fields.get? s.models e.1 with
    | some name => keep name (← s.component name e.2)
    | none => return

/-- A server, if it has an address. -/
def server? (n : Node) : Except Failure (Option Server) := do
  let fields ← s.fieldsOf (some n)
  match ← s.textOf (Fields.get? fields "url") with
  | none => return none
  | some url => return some { url, description := ← s.textOf (Fields.get? fields "description") }

/-- The servers that have an address. -/
def servers (n : Option Node) : Except Failure (List Server) := do
  return (← (← s.itemsOf n).mapM s.server?).filterMap id

/-- The text of a value, empty if it is missing. -/
def shownOrEmpty : Option Node → Except Failure String
  | none => .ok ""
  | some n => s.shown n

/-- A way to prove one's identity. -/
def securityScheme (name : String) (n : Node) : Except Failure SecurityScheme := do
  let fields ← s.fieldsOf (some n)
  return {
    name
    type := ← s.shownOrEmpty (Fields.get? fields "type")
    location := ← s.textOf (Fields.get? fields "in")
    parameterName := ← s.textOf (Fields.get? fields "name")
    scheme := ← s.textOf (Fields.get? fields "scheme") }

/-- The ways to prove one's identity. -/
def securitySchemes (n : Option Node) : Except Failure (List SecurityScheme) := do
  (← s.fieldsOf n).mapM fun e => s.securityScheme e.1 e.2

/-! ### The whole document -/

/-- The parts of a document that are looked up before anything is taken out of it. -/
structure Parts where
  document : Fields Node
  info : Fields Node
  components : Fields Node
  schemas : Fields Node

/-- The parts of a document. -/
def parts (document : Value) : Except Failure Parts := do
  let document := (Node.root document).fields
  let info ← s.fieldsOf (Fields.get? document "info")
  let components ← s.fieldsOf (Fields.get? document "components")
  let schemas ← s.fieldsOf (Fields.get? components "schemas")
  return { document, info, components, schemas }

/-- The interface that a document describes, when its schemas have been named. -/
def interface (parts : Parts) : Extract ApiSpec := do
  s.components parts.schemas
  let operations ← s.operations (← s.fieldsOf (Fields.get? parts.document "paths"))
  let title ← s.textOf (Fields.get? parts.info "title")
  return {
    title := title.getD "API"
    version := ← s.shownOrEmpty (Fields.get? parts.info "version")
    description := ← s.textOf (Fields.get? parts.info "description")
    servers := ← s.servers (Fields.get? parts.document "servers")
    schemas := Fields.ofEntries (← get).schemas
    operations
    securitySchemes := ← s.securitySchemes (Fields.get? parts.components "securitySchemes") }

end Scope

/--
What can be seen of a document in canonical form, and its parts, with bounds that are wider
than needed by `more`.
-/
def prepare (more : Bounds) (d : CanonicalDocument) : Except Failure (Scope × Scope.Parts) := do
  let linked ← (Linked.ofFields d.fields).mapError .reference
  let s := Scope.ofLinked linked ((Bounds.ofDocument linked.document).widened more)
  let parts ← s.parts linked.document
  return ({ s with models := modelNames (Fields.keys parts.schemas) }, parts)

/-- The interface that a document in canonical form describes, and what was kept in mind. -/
def run (more : Bounds) (d : CanonicalDocument) : Except Failure (ApiSpec × Progress) := do
  let (s, parts) ← prepare more d
  (s.interface parts).run { models := s.models.map Prod.snd }

/-- The interface that a document in canonical form describes. -/
def extract (d : CanonicalDocument) : Except Failure ApiSpec := do return (← run {} d).1

end ApiClientGen.Extraction
