import Precedent.Network.Sweep

/-!
# Precedent.Network.Loop

**Loops of citations.** Two opinions are in one loop when each is reached from the other along
citations. The opinions of a loop are listed in chronological order, and the loops in the order of
their lists of identifiers. Loops are no fault; they are only reported.
-/

namespace Precedent

namespace Network

variable (g : Network)

/-- What is reached along citations from each opinion. -/
def reachTable : Array Depths :=
  Array.ofFn fun i : Fin g.size => (g.sweep .cites i).distance

/-- Whether one opinion reaches another one, by a table of what is reached from each. -/
def reaches (table : Array Depths) (a b : Nat) : Bool :=
  match table[a]? with
  | some reached => (reached.at? b).isSome
  | none => false

/-- The opinions in one loop with an opinion, itself among them, in chronological order. -/
def loopOf (table : Array Depths) (node : Nat) : List Nat :=
  (List.range g.size).filter fun other => reaches table node other && reaches table other node

/-- The loops with more than one member, each at its earliest member. -/
def loopIndices : List (List Nat) :=
  let table := g.reachTable
  ((List.range g.size).map fun node => (node, g.loopOf table node)).filterMap fun (node, loop) =>
    if loop.head? = some node && 1 < loop.length then some loop else none

/-- The loops of the network as lists of identifiers. -/
def loops : List (List OpinionId) :=
  (g.loopIndices.map fun loop => loop.filterMap g.idAt?).mergeSort fun a b =>
    (compare a b).isLE

end Network

end Precedent
