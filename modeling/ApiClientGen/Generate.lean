/-
From a file with an interface to a client.

The description is read, brought into its canonical form, the interface is taken out of
it, the settings are made from the inputs, and the backend of their language does the
rest.  The first step that fails ends the run.
-/
import ApiClientGen.Backend.Client
import ApiClientGen.Canonical.Upgrade
import ApiClientGen.Extraction.Spec
import ApiClientGen.Settings.Generation
import ApiClientGen.Source.Reading

namespace ApiClientGen

open ApiClientGen.Backend ApiClientGen.Canonical ApiClientGen.Files ApiClientGen.Settings
  ApiClientGen.Spec

/-- Why a run failed. -/
inductive RunFailure where
  | source (failure : Source.Failure)
  /-- There is no canonical form. -/
  | canonical (fault : Document.TextFault)
  | extraction (failure : Extraction.Failure)
  | inputs (fault : InputsFault)
  | registry (fault : RegistryFault)
  | backend (failure : Backend.Failure)

/-- The steps of a run that can be exchanged. -/
structure Steps (m : Type → Type) where
  extract : CanonicalDocument → ExceptT Extraction.Failure m ApiSpec
  registry : Registry (Generator m)

variable {m : Type → Type} [Monad m]

/-- The steps that are built in. -/
def Steps.builtIn (files : FileSystem m) : Steps m where
  extract document := ExceptT.mk (pure (Extraction.extract document))
  registry := Backend.builtIn files

/-- Reads the description in a file; a file that cannot be read counts as missing. -/
def readDescription (files : FileSystem m) (path : Path) : ExceptT Source.Failure m Source.Description :=
  ExceptT.mk do
    match ← files.read path.text with
    | .error _ => return .error (.missing path)
    | .ok bytes => return Source.read path bytes

/-- Hands an interface to the backend of its language. -/
def dispatch (registry : Registry (Generator m)) (language : Language) (spec : ApiSpec)
    (g : Generation) : ExceptT RunFailure m Unit := do
  match registry.find language with
  | .error fault => throw (.registry fault)
  | .ok generator => (generator spec g).adapt .backend

/-- Generates a client from the description in a file, in a program that runs in the directory given. -/
def generate (files : FileSystem m) (steps : Steps m) (directory path : Path) (inputs : Inputs) :
    ExceptT RunFailure m Generation := do
  let description ← (readDescription files path).adapt .source
  let document ← ExceptT.mk (pure ((canonicalize description).mapError .canonical))
  let spec ← (steps.extract document).adapt .extraction
  let g ← ExceptT.mk (pure ((inputs.generation directory).mapError .inputs))
  dispatch steps.registry g.language spec g
  return g

end ApiClientGen
