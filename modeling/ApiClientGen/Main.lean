/-
The program.

It runs on the files of the computer, in the directory that it was started in, and writes
its lines to the standard output.
-/
import ApiClientGen.CommandLine.Run

namespace ApiClientGen

open ApiClientGen.Files

/-- Why an operation on files failed. -/
def faultOf : IO.Error → AccessFault
  | .noFileOrDirectory .. => .missing
  | .inappropriateType .. => .notDirectory
  | _ => .isDirectory

/-- Does something with a file, and says why it failed. -/
def attempt {α : Type} (action : IO α) : IO (Except AccessFault α) := do
  match ← action.toBaseIO with
  | .ok a => return .ok a
  | .error e => return .error (faultOf e)

/-- The files of the computer, seen from the directory that the program runs in. -/
def computerFiles : FileSystem IO where
  isThere path := do ((← IO.currentDir) / path).pathExists
  isDirectory path := do ((← IO.currentDir) / path).isDir
  read path := attempt (IO.FS.readBinFile path)
  write path content := attempt (IO.FS.writeFile path content)
  makeDirectories path := attempt (IO.FS.createDirAll path)

end ApiClientGen

open ApiClientGen in
/-- Runs the program; its exit code, which is one as well if a failure gets out. -/
def main (args : List String) : IO UInt32 := do
  let directory := Files.Path.ofString (← IO.currentDir).toString
  let exit ← CommandLine.runProgram computerFiles IO.println directory args
  if exit.code = 2 then IO.eprintln "wrong arguments"
  if exit.unreported.isSome then
    IO.eprintln "unexpected failure"
    return 1
  return UInt32.ofNat exit.code
