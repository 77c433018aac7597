import Precedent.Bisect

/-!
# Precedent.Network.Adjacency

**Neighbour lists, stored flat.** The rows of all nodes stand one after the other in two arrays, one
for the neighbours and one for the slot of the link that leads to each; a third array says where
each row starts. The last offset is the end of the last row, so there is one offset more than there
are nodes.

Rows are written in the order of their nodes, one neighbour after the other (`push`, `close`). The
reverse lists are not written that way, since the entries of one row come from everywhere:
`transpose` counts how long each row will be, and then carries every entry to its place, with one
cursor for each row.

The numbers are natural numbers. Those that are stored or counted for a network do not exceed the
numbers of its opinions and citations (`Network.ofRecords_fitsBelow`).
-/

namespace Precedent

/-- Running totals of a list of numbers, the sum so far in front. -/
def runningTotals (total : Nat) : List Nat → List Nat
  | [] => [total]
  | n :: rest => total :: runningTotals (total + n) rest

/-- Neighbour lists in flat form. -/
structure Adjacency where
  /-- Row `i` reaches from `offsets[i]` to `offsets[i + 1]`. -/
  offsets : Array Nat
  /-- The neighbours, row after row. -/
  targets : Array Nat
  /-- The slot of the link to each neighbour. -/
  slots : Array Nat
deriving DecidableEq, Repr

namespace Adjacency

/-! ### Writing rows -/

/-- No row has been written. -/
def empty : Adjacency := ⟨#[0], #[], #[]⟩

/-- Write one more neighbour into the row at the end. -/
def push (a : Adjacency) (target slot : Nat) : Adjacency where
  offsets := a.offsets
  targets := a.targets.push target
  slots := a.slots.push slot

/-- End the row at the end. -/
def close (a : Adjacency) : Adjacency := { a with offsets := a.offsets.push a.targets.size }

/-! ### Reading rows -/

/-- Where a row starts. -/
def offset (a : Adjacency) (node : Nat) : Nat := a.offsets[node]?.getD 0

/-- The neighbours of a node with the slots of their links. -/
def row (a : Adjacency) (node : Nat) : List (Nat × Nat) :=
  let first := a.offset node
  let last := a.offset (node + 1)
  (a.targets.extract first last).toList.zip (a.slots.extract first last).toList

def neighbours (a : Adjacency) (node : Nat) : List Nat := (a.row node).map Prod.fst

/-- The number of neighbours of a node. -/
def degree (a : Adjacency) (node : Nat) : Nat := (a.row node).length

/-- The number of all entries. -/
def size (a : Adjacency) : Nat := a.targets.size

/-- Where a node stands among the neighbours of another one, which increase. -/
def place? (a : Adjacency) (node target : Nat) : Option Nat :=
  bisect (fun place => a.targets[place]?.getD 0) target (a.offset node) (a.offset (node + 1))

/-- Whether a node is among the neighbours of another one. -/
def joins (a : Adjacency) (node target : Nat) : Bool := (a.place? node target).isSome

/-- The slot of the link from a node to one of its neighbours. -/
def slot? (a : Adjacency) (node target : Nat) : Option Nat :=
  (a.place? node target).bind fun place => a.slots[place]?

/-! ### Turning the direction around -/

/-- How many entries name each node. -/
def counts (a : Adjacency) (nodes : Nat) : Array Nat :=
  a.targets.foldl (fun counts target => counts.modify target (· + 1)) (Array.replicate nodes 0)

/-- Reverse rows while they are being filled. -/
structure Transposition where
  /-- Where the next entry of each row goes. -/
  cursor : Array Nat
  targets : Array Nat
  slots : Array Nat
deriving DecidableEq, Repr

/-- Carry one entry of a node to the reverse row of its neighbour. -/
def Transposition.carry (node : Nat) (t : Transposition) (entry : Nat × Nat) : Transposition :=
  let place := t.cursor[entry.1]?.getD 0
  { cursor := t.cursor.modify entry.1 (· + 1)
    targets := t.targets.setIfInBounds place node
    slots := t.slots.setIfInBounds place entry.2 }

/-- The reverse lists: the nodes that each node is a neighbour of. -/
def transpose (a : Adjacency) (nodes : Nat) : Adjacency :=
  let offsets := runningTotals 0 (a.counts nodes).toList
  let start : Transposition :=
    ⟨(offsets.take nodes).toArray, Array.replicate a.size 0, Array.replicate a.size 0⟩
  let filled := (List.range nodes).foldl
    (fun t node => (a.row node).foldl (Transposition.carry node) t) start
  ⟨offsets.toArray, filled.targets, filled.slots⟩

end Adjacency

end Precedent
