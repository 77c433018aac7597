import Precedent.Entries
import Precedent.Files.Access

/-!
# Precedent.Files.Disk

**Files in memory.** A disk is a tree: a file is a leaf, and a directory holds entries under names.
A path is walked part by part, and one can only walk on from a directory. The walk keeps the way it
came, so a part that leads up goes one entry back.
-/

namespace Precedent

/-- A file, or a directory with all that is in it. -/
inductive DiskEntry where
  | file (content : ByteArray)
  /-- The entries of a directory stand in the order of their names. -/
  | directory (entries : List (String × DiskEntry))

namespace DiskEntry

def empty : DiskEntry := .directory []

/-- What is in a directory. A file has nothing in it. -/
def entries : DiskEntry → List (String × DiskEntry)
  | .file _ => []
  | .directory entries => entries

/-- The tree with an entry at a place, which is given by the names on the way to it. Where the way
is missing, directories are made. -/
def put (entry : DiskEntry) : List String → DiskEntry → DiskEntry
  | [], _ => entry
  | name :: rest, tree =>
    let inner := (Entries.get? name tree.entries).getD empty
    .directory (Entries.insert name (entry.put rest inner) tree.entries)

end DiskEntry

/-- A tree of directories and files. -/
structure Disk where
  /-- The directory that holds all others. -/
  top : DiskEntry
  /-- The names on the way to where a path starts, unless it starts with a slash. -/
  home : List String

/-- The way from the top to a place: the names with what stands there, the innermost first. Only
there nothing may stand. -/
abbrev Trail := List (String × Option DiskEntry)

/-- The names on the way to a place, the innermost last. -/
def Trail.names (trail : Trail) : List String := (trail.map Prod.fst).reverse

namespace Disk

def put (d : Disk) (place : List String) (entry : DiskEntry) : Disk :=
  { d with top := entry.put place d.top }

/-! ### Paths -/

/-- What stands where a way ends. -/
def at? (d : Disk) : Trail → Option DiskEntry
  | [] => some d.top
  | (_, entry) :: _ => entry

/-- Where one part of a path leads. Above the top there is nothing, so the way up ends there. -/
def step (d : Disk) (trail : Trail) (part : String) : Except FileFault Trail :=
  match d.at? trail with
  | none => .error .notFound
  | some (.file _) => .error .notDirectory
  | some (.directory entries) =>
    if isIdle part then .ok trail
    else if part = ".." then .ok trail.tail
    else if isOverlongName part then .error .nameTooLong
    else .ok ((part, Entries.get? part entries) :: trail)

/-- Where some parts of a path lead from the place where the path starts. The empty path leads
nowhere. -/
def walk (d : Disk) (path : String) (parts : List String) : Except FileFault Trail :=
  if path.isEmpty then .error .notFound
  else if isOverlongPath path then .error .nameTooLong
  else ((if path.startsWith "/" then [] else d.home) ++ parts).foldlM d.step []

/-- Where a path leads. -/
def follow (d : Disk) (path : String) : Except FileFault Trail := d.walk path (partsOf path)

/-! ### Reading and writing -/

/-- The text of a file, which has to be UTF-8. -/
def readText (d : Disk) (path : String) : Except FileFault String := do
  let trail ← d.follow path
  match d.at? trail with
  | none => .error .notFound
  | some (.directory _) => .error .isDirectory
  | some (.file content) =>
    match String.fromUTF8? content with
    | some text => .ok text
    | none => .error .invalidText

/-- Put a text into a file. -/
def writeText (d : Disk) (path text : String) : Except FileFault Disk := do
  let trail ← d.follow path
  match d.at? trail with
  | some (.directory _) => .error .isDirectory
  | _ => .ok (d.put trail.names (.file text.toUTF8))

/-! ### Directories -/

/-- Make one directory where nothing stands; slashes at the end of its path do not matter. -/
def makeDirectory (d : Disk) (path : String) : Except FileFault Disk := do
  let trail ← d.walk path (withoutLast String.isEmpty (partsOf path))
  if (d.at? trail).isSome then .error .alreadyExists else .ok (d.put trail.names .empty)

/-- Whether a path leads to a directory. -/
def hasDirectory (d : Disk) (path : String) : Bool :=
  match (d.follow path).map d.at? with
  | .ok (some (.directory _)) => true
  | _ => false

/-! ### Access -/

/-- Replace the disk; one that is refused stays as it was. -/
def replaceBy (f : Disk → Except FileFault Disk) : ExceptT FileFault (StateM Disk) Unit := do
  let d ← get
  let changed ← ofExcept (f d)
  set changed

instance : FileAccess (StateM Disk) where
  readText path := do
    let d ← get
    ofExcept (d.readText path)
  writeText path text := replaceBy fun d => d.writeText path text
  makeDirectory path := replaceBy fun d => d.makeDirectory path
  hasDirectory path := do
    let d ← get
    pure (d.hasDirectory path)

end Disk

end Precedent
