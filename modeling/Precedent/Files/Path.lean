/-!
# Precedent.Files.Path

**Paths.** A path is a text whose parts are separated by slashes. An empty part, as two slashes in a
row or one at the end leave it, and a part that is a single point lead nowhere; two points lead up.
All other parts are names. The length of a name and of a path is bounded; it is counted in bytes.
-/

namespace Precedent

def partsOf (path : String) : List String := path.splitOn "/"

def pathOf (parts : List String) : String := "/".intercalate parts

/-- The path of a name within a directory. The empty path is the place where one stands. -/
def pathWithin (directory name : String) : String :=
  if directory.isEmpty || directory.endsWith "/" then directory ++ name
  else directory ++ "/" ++ name

/-- Whether a part of a path stays where it is. -/
def isIdle (part : String) : Bool := part == "" || part == "."

/-- Whether a name has more than the 255 bytes that a directory takes. -/
def isOverlongName (name : String) : Bool := decide (255 < name.utf8ByteSize)

/-- Whether a path has more than the 4095 bytes that the system takes. -/
def isOverlongPath (path : String) : Bool := decide (4095 < path.utf8ByteSize)

/-- A list of parts without those at its end that satisfy a test. -/
def withoutLast (test : String → Bool) (parts : List String) : List String :=
  (parts.reverse.dropWhile test).reverse

/-- The parts of the directory that encloses the last part. -/
def enclosing (parts : List String) : List String :=
  withoutLast isIdle (withoutLast isIdle parts).dropLast

theorem length_withoutLast_le (test : String → Bool) (parts : List String) :
    (withoutLast test parts).length ≤ parts.length := by
  have h := (List.dropWhile_sublist test : (parts.reverse.dropWhile test).Sublist _).length_le
  simpa [withoutLast] using h

/-- The way up ends. -/
theorem length_enclosing_lt {parts : List String} (h : parts ≠ []) :
    (enclosing parts).length < parts.length := by
  have hpos : 0 < parts.length := List.length_pos_iff.2 h
  have hinner := length_withoutLast_le isIdle parts
  have houter := length_withoutLast_le isIdle (withoutLast isIdle parts).dropLast
  rw [List.length_dropLast] at houter
  exact Nat.lt_of_le_of_lt houter (by omega)

end Precedent
