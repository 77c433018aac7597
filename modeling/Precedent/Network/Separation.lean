import Precedent.Degree
import Precedent.Network.Sweep

/-!
# Precedent.Network.Separation

**How far opinions and links are from both ends of the history.** One sweep goes forward from the
earliest opinion to those that cite it, the other backward from the latest opinion to those it
cites. The distances of an opinion, and the crossing depths of a link, combine to its degree.
-/

namespace Precedent

/-- The depths of the two sweeps. -/
structure Distances where
  /-- From the earliest opinion. -/
  forward : Depths
  /-- From the latest opinion. -/
  backward : Depths
  linkForward : Depths
  linkBackward : Depths
deriving DecidableEq, Repr

/-- The degrees of all opinions and links. -/
structure Degrees where
  nodes : Array Degree
  links : Array Degree
deriving DecidableEq, Repr

namespace Network

variable (g : Network)

/-- The distances of all opinions from both ends. -/
def distances : Distances :=
  let forward := g.sweep .citedBy earliest
  let backward := g.sweep .cites g.latest
  ⟨forward.distance, backward.distance, forward.crossing, backward.crossing⟩

end Network

namespace Distances

def degrees (d : Distances) (size linkCount : Nat) : Degrees where
  nodes := Array.ofFn fun i : Fin size => .ofNode i size (d.forward.at? i) (d.backward.at? i)
  links := Array.ofFn fun i : Fin linkCount =>
    .ofLink (d.linkForward.at? i) (d.linkBackward.at? i)

end Distances

namespace Degrees

/-- The farthest degree of an opinion or link. -/
def max (d : Degrees) : Degree := .farthest (d.nodes.toList ++ d.links.toList)

/-- The degree of an opinion; there is nothing nearer than distant past the end. -/
def node (d : Degrees) (i : Nat) : Degree := d.nodes[i]?.getD .distant

def link (d : Degrees) (slot : Nat) : Degree := d.links[slot]?.getD .distant

/-- How many opinions have each degree. -/
def histogram (d : Degrees) : List (Degree × Nat) :=
  Degree.all.map fun degree => (degree, d.nodes.toList.count degree)

end Degrees

end Precedent
