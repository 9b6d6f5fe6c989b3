/-
One run of the program.

The arguments are put over the saved settings of the directory, and then either the
settings are saved or a client is generated.  A failure that the program knows how to
report ends the run with a line about it; any other one is handed out.
-/
import ApiClientGen.CommandLine.Arguments
import ApiClientGen.Generate

namespace ApiClientGen.CommandLine

open ApiClientGen.Document ApiClientGen.Files ApiClientGen.Settings

/-- Why a run fails. -/
inductive Failure where
  | load (failure : LoadFailure)
  | save (failure : Saved.SaveFailure)
  /-- Name or description are given nowhere. -/
  | nothingToDo
  /-- The name or the path that is to be shown has no text. -/
  | text (fault : TextFault)
  /-- The settings name an option that is not known. -/
  | option (fault : UnknownOption)
  /-- The path of the description is no text. -/
  | notPath
  | generation (failure : RunFailure)

namespace Failure

/-- What is reported of a failure; nothing of one that is not expected. -/
def report? : Failure → Option String
  | load (.reader _) => none
  | load failure => some failure.message
  | save (.unwritable .longInteger) => some TextFault.longInteger.message
  | save _ => none
  | nothingToDo =>
    some ("Не указаны название и спецификация (аргументы или " ++ settingsFileName ++ ")")
  | text fault => some fault.message
  | option fault => some fault.message
  | notPath => none
  | generation (.source failure) => if failure.isExpected then some failure.message else none
  | generation (.canonical fault) => some fault.message
  | generation (.extraction failure) => some failure.message
  | generation (.inputs .notText) => none
  | generation (.inputs (.unknown fault)) => some fault.message
  | generation (.registry fault) => some fault.message
  | generation (.backend failure) =>
    match failure.cause with
    | .client .unnamedModel => none
    | .client .unwritable => none
    | .client (.literal (.reference fault)) =>
      if fault.isAddress then some failure.message else none
    | _ => some failure.message

end Failure

/-- How a run ends. -/
structure Exit where
  /-- The code that the run sets; it sets none when it hands out a failure, and this is zero then. -/
  code : Nat
  /-- The failure that is not reported. -/
  unreported : Option Failure := none

variable {m : Type → Type} [Monad m]

/-- Does what the arguments ask for, in a program that runs in the directory given. -/
def perform (files : FileSystem m) (print : String → m Unit) (directory : Path) (a : Arguments) :
    ExceptT Failure m Unit := do
  let saved ← (Saved.load files settingsFileName directory.text).adapt .load
  if saved.isSome then print ("📄 Используется " ++ settingsFileName)
  let settings := (saved.getD {}).merge a.overrides
  if a.initConfig then
    let _ ← (settings.save files settingsFileName).adapt .save
    print ("💾 Конфиг сохранен в " ++ settingsFileName)
    return
  if !settings.name.isSomething || !settings.spec.isSomething then throw .nothingToDo
  let name ← ExceptT.mk (pure (settings.name.shown.mapError .text))
  let spec ← ExceptT.mk (pure (settings.spec.shown.mapError .text))
  print ("🚀 Генерация " ++ name ++ " из " ++ spec)
  let inputs ← ExceptT.mk (pure (settings.inputs.mapError .option))
  let .string path := settings.spec | throw .notPath
  let g ← (generate files (.builtIn files) directory (Path.ofString path) inputs).adapt .generation
  print "✅ Генерация завершена успешно!"
  print ("📦 Библиотека создана в: " ++ (Path.absolute directory g.destination).text)

/-- Runs the program with the arguments given. -/
def runProgram (files : FileSystem m) (print : String → m Unit) (directory : Path) (args : List String) :
    m Exit := do
  match parse args with
  | .error .usage => return { code := 2 }
  | .error .help => return { code := 0 }
  | .ok a =>
    match ← (perform files print directory a).run with
    | .ok () => return { code := 0 }
    | .error failure =>
      match failure.report? with
      | some text =>
        print ("❌ Ошибка генерации: " ++ text)
        return { code := 1 }
      | none => return { code := 0, unreported := some failure }

end ApiClientGen.CommandLine
