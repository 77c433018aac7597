import Precedent.Network.Basic

/-!
# Precedent.Network.Sweep

**Distances from one opinion.** A sweep starts at a root and takes opinions from a queue, first in
first out. It looks at every neighbour of the opinion it has taken: a link that is crossed for the
first time, or at a smaller depth than before, is stamped with the depth of the far end, and a
neighbour whose distance improves is put at the end of the queue. Since no distance improves twice,
as many rounds as there are opinions empty the queue, cycles or not.
-/

namespace Precedent

/-- A table of depths, some of them not known. -/
abbrev Depths := Array (Option Nat)

namespace Depths

def unknown (size : Nat) : Depths := Array.replicate size none

/-- The depth at an index, if it is known. -/
def at? (t : Depths) (i : Nat) : Option Nat := t[i]?.join

/-- Whether a depth is better than what is known at an index. -/
def improves (t : Depths) (i depth : Nat) : Bool :=
  match t.at? i with
  | none => true
  | some known => depth < known

def note (t : Depths) (i depth : Nat) : Depths := t.setIfInBounds i (some depth)

/-- Note a depth where it is better than what is known. -/
def lower (t : Depths) (i depth : Nat) : Depths :=
  if t.improves i depth then t.note i depth else t

end Depths

/-- The state of a sweep. -/
structure Sweep where
  /-- The distance of every opinion that has been reached. -/
  distance : Depths
  /-- The least depth at which each link has been crossed. -/
  crossing : Depths
  /-- The opinions to be looked at, the next one first. -/
  queue : List Nat
deriving DecidableEq, Repr

namespace Sweep

/-- The root is reached, and nothing else. -/
def start (nodes links root : Nat) : Sweep where
  distance := (Depths.unknown nodes).note root 0
  crossing := .unknown links
  queue := [root]

/-- Look at one neighbour and the link to it. -/
def cross (depth : Nat) (s : Sweep) (entry : Nat × Nat) : Sweep :=
  let crossing := s.crossing.lower entry.2 depth
  if s.distance.improves entry.1 depth then
    { distance := s.distance.note entry.1 depth
      crossing
      queue := s.queue ++ [entry.1] }
  else { s with crossing }

/-- Take the next opinion from the queue, if there is one. -/
def round (a : Adjacency) (s : Sweep) : Sweep :=
  match s.queue with
  | [] => s
  | node :: rest =>
    let s := { s with queue := rest }
    match s.distance.at? node with
    | some depth => (a.row node).foldl (cross (depth + 1)) s
    | none => s

/-- Take as many rounds as given. -/
def run (a : Adjacency) : Nat → Sweep → Sweep
  | 0, s => s
  | rounds + 1, s => run a rounds (s.round a)

end Sweep

namespace Network

variable (g : Network)

/-- The sweep from a root, one way, run to its end. -/
def sweep (way : Way) (root : Nat) : Sweep :=
  (Sweep.start g.size g.linkCount root).run (g.adjacency way) g.size

end Network

end Precedent
