/-
The files around a program.

A program reads and writes files through the few operations here, so that it runs on the
files of a computer and on a tree of files alike.
-/
import ApiClientGen.Files.Path
import ApiClientGen.Text.Quoted

namespace ApiClientGen.Files

open ApiClientGen.Text

/-- Why a file cannot be used. -/
inductive AccessFault where
  | missing
  | notDirectory
  | isDirectory
  | nameTooLong
  deriving DecidableEq, Repr

namespace AccessFault

/-- What is wrong with a path, in words. -/
def message (path : String) : AccessFault → String
  | missing => "[Errno 2] No such file or directory: " ++ quoted path
  | notDirectory => "[Errno 20] Not a directory: " ++ quoted path
  | isDirectory => "[Errno 21] Is a directory: " ++ quoted path
  | nameTooLong => "[Errno 36] File name too long: " ++ quoted path

end AccessFault

/-- What a program can do with files, named by paths as they are written. -/
structure FileSystem (m : Type → Type) where
  /-- Whether there is a file or a directory. -/
  isThere : String → m Bool
  isDirectory : String → m Bool
  read : String → m (Except AccessFault ByteArray)
  /-- Writes a file in a directory that is there. -/
  write : String → String → m (Except AccessFault Unit)
  /-- Makes a directory and those above it, as far as they are missing. -/
  makeDirectories : String → m (Except AccessFault Unit)

/-- The same files, used by a program with more effects. -/
def FileSystem.lift {m n : Type → Type} (f : {α : Type} → m α → n α) (files : FileSystem m) :
    FileSystem n where
  isThere path := f (files.isThere path)
  isDirectory path := f (files.isDirectory path)
  read path := f (files.read path)
  write path content := f (files.write path content)
  makeDirectories path := f (files.makeDirectories path)

end ApiClientGen.Files
