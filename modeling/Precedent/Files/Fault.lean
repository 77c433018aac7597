/-!
# Precedent.Files.Fault

**Why a file could not be read or written.**
-/

namespace Precedent

/-- What the file system answers instead of doing what it was asked for. -/
inductive FileFault where
  | notFound
  /-- The file is no UTF-8 text. -/
  | invalidText
  | isDirectory
  /-- A file stands where a directory is needed. -/
  | notDirectory
  /-- A file stands where a directory should be made. -/
  | alreadyExists
  /-- A name or a path is longer than the system takes. -/
  | nameTooLong
  /-- Any other refusal, in the words of the system. -/
  | other (reason : String)
deriving DecidableEq, Repr

def FileFault.message : FileFault → String
  | .notFound => "No such file or directory (os error 2)"
  | .invalidText => "stream did not contain valid UTF-8"
  | .isDirectory => "Is a directory (os error 21)"
  | .notDirectory => "Not a directory (os error 20)"
  | .alreadyExists => "File exists (os error 17)"
  | .nameTooLong => "File name too long (os error 36)"
  | .other reason => reason

end Precedent
