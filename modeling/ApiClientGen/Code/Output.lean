/-
Writing a project.

The files of a project are written below a directory in their order, each with the
directories it needs.  The first one that cannot be written ends the writing; what was
written before it stays.
-/
import ApiClientGen.Code.Render
import ApiClientGen.Files.System

namespace ApiClientGen.Code

open ApiClientGen.Files

variable {m : Type → Type} [Monad m]

/-- The path of a file below the directory that a project is written to. -/
def CodeFile.target (directory : Path) (f : CodeFile) : Path := directory.join (Path.ofString f.path)

/-- Writes a file below a directory. -/
def CodeFile.write (files : FileSystem m) (directory : Path) (f : CodeFile) :
    ExceptT AccessFault m Path := do
  let target := f.target directory
  ExceptT.mk (files.makeDirectories target.parent.text)
  ExceptT.mk (files.write target.text f.render)
  return target

/-- Writes the files of a project below a directory; the paths written. -/
def Project.write (files : FileSystem m) (directory : Path) (p : Project) :
    ExceptT AccessFault m (List Path) :=
  p.files.mapM (CodeFile.write files directory)

end ApiClientGen.Code
