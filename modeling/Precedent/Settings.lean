import Precedent.Opinion.Citations

/-!
# Precedent.Settings

**What can be set before a map is drawn.** The mode says how the links of a chart are chosen and how
it is laid out, and has a name, sometimes two, by which it is chosen. Beside it there are the degree
limit, the opacity of connections and the room for authority summaries.
-/

namespace Precedent

/-- The mode of a chart. -/
inductive Mode where
  /-- Degrees of separation: a link has to fall under the degree limit itself. -/
  | degrees
  /-- Opinions placed by vote split and direction, with every citation between them. -/
  | spaeth
  /-- One parent link for each opinion. -/
  | genealogy
deriving DecidableEq, Repr, Inhabited

namespace Mode

def all : List Mode := [degrees, spaeth, genealogy]

def name : Mode → String
  | degrees => "dos"
  | spaeth => "spaeth"
  | genealogy => "genealogy"

/-- The names by which a mode can be chosen. -/
def names : Mode → List String
  | genealogy => [genealogy.name, "gene"]
  | m => [m.name]

/-- The mode with a name, exactly as it is written. -/
def ofName? (raw : String) : Option Mode := all.find? fun m => m.name == raw

/-- A text with the ASCII capitals made small. -/
def folded (s : String) : String := s.map Char.toLower

/-- The mode that is chosen by a text, the case of ASCII letters ignored on demand. -/
def choose? (ignoreCase : Bool) (raw : String) : Option Mode :=
  all.find? fun m => m.names.any fun n =>
    if ignoreCase then folded n == folded raw else n == raw

/-- The wording for a text that chooses no mode. -/
def unknownMessage (raw : String) : String := "invalid variant: " ++ raw

/-- Whether a link has to fall under the degree limit itself. -/
def thresholdsLinks (m : Mode) : Bool := m == degrees

end Mode

/-- The settings of a citation map. -/
structure Settings where
  /-- Opinions and links are kept below this many degrees of separation. -/
  maxDegree : Nat
  mode : Mode
  /-- The opacity of a connection whose citation asks for none. -/
  edgeOpacity : Opacity
  /-- How many authority summaries are kept for later. -/
  cacheCapacity : Nat
deriving DecidableEq, Repr

/-- Three degrees, connections half opaque, 256 summaries. -/
def Settings.default : Settings := ⟨3, .degrees, Number.binary32.round false 1 2, 256⟩

instance : Inhabited Settings := ⟨.default⟩

end Precedent
