import Precedent.Command.Run

/-!
# Precedent.Main

**The command on a machine.** Files are those of the machine, and what there is to say goes to the
standard streams.
-/

namespace Precedent

/-- What a refusal of the system means. A directory in the place of a file, a file in the place of a
directory and a name that is too long are told by their codes. -/
def fileFaultOf (error : IO.Error) : FileFault :=
  match error with
  | .noFileOrDirectory _ _ _ => .notFound
  | .alreadyExists _ _ _ => .alreadyExists
  | .inappropriateType _ code details =>
    if code = 20 then .notDirectory else if code = 21 then .isDirectory else .other details
  | .invalidArgument _ code details => if code = 36 then .nameTooLong else .other details
  | other => .other (toString other)

/-- An action of the system, its refusal turned into a value. -/
def attempt {α : Type} (action : IO α) : ExceptT FileFault IO α := do
  match ← (action.toBaseIO : BaseIO _) with
  | .ok result => pure result
  | .error error => throw (fileFaultOf error)

instance : FileAccess IO where
  readText path := do
    let content ← attempt (IO.FS.readBinFile path)
    match String.fromUTF8? content with
    | some text => pure text
    | none => throw .invalidText
  writeText path text := attempt (IO.FS.writeFile path text)
  makeDirectory path := attempt (IO.FS.createDir path)
  hasDirectory path := attempt do
    let here ← IO.currentDir
    (here / path).isDir

end Precedent

open Precedent Command in
/-- Draw the map that the arguments ask for. -/
def main (args : List String) : IO UInt32 := do
  let outcome ← (run args : IO Outcome)
  match outcome with
  | .done => pure ()
  | .help => IO.println usage
  | .rejected fault => IO.eprintln ("error: " ++ fault.message)
  | .failed fault => IO.eprintln ("Error: " ++ fault.message)
  pure outcome.status
