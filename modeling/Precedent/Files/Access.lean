import Precedent.Files.Fault
import Precedent.Files.Path

/-!
# Precedent.Files.Access

**Access to files.** What the library wants of files is said by a class of four operations, so the
same program runs on the files of a machine and on a `Disk` in memory. Making a whole chain of
directories and writing several files are programs over these operations.
-/

namespace Precedent

/-- Access to files by their paths. -/
class FileAccess (m : Type → Type) where
  /-- The text of a file. -/
  readText (path : String) : ExceptT FileFault m String
  /-- Put a text into a file, in place of what it holds. -/
  writeText (path : String) (text : String) : ExceptT FileFault m Unit
  /-- Make a directory in one that is there. -/
  makeDirectory (path : String) : ExceptT FileFault m Unit
  /-- Whether a path leads to a directory. -/
  hasDirectory (path : String) : ExceptT FileFault m Bool

variable {m : Type → Type} [Monad m] [FileAccess m]

/-- Make a directory unless it is there. -/
def ensureDirectory (path : String) : ExceptT FileFault m Unit :=
  tryCatch (FileAccess.makeDirectory path) fun fault => do
    if ← FileAccess.hasDirectory path then pure () else throw fault

/-- Make a directory by the parts of its path; if the way to it is missing, make the enclosing one
first. -/
def ensureWay (parts : List String) : ExceptT FileFault m Unit :=
  if _h : parts = [] then pure ()
  else
    tryCatch (ensureDirectory (pathOf parts)) fun fault => do
      if fault = .notFound then
        ensureWay (enclosing parts)
        ensureDirectory (pathOf parts)
      else throw fault
termination_by parts.length
decreasing_by exact length_enclosing_lt _h

/-- Make a directory and all directories on the way to it; those that are there stay. The empty path
asks for none. -/
def makeDirectories (path : String) : ExceptT FileFault m Unit :=
  if path.isEmpty then pure () else ensureWay (partsOf path)

/-- Write files into a directory, one after the other, until one is refused. -/
def writeFiles (directory : String) (files : List (String × String)) :
    ExceptT FileFault m Unit := do
  makeDirectories directory
  files.forM fun (name, text) => FileAccess.writeText (pathWithin directory name) text

end Precedent
