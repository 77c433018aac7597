import Precedent.Network.Basic

/-!
# Precedent.Genealogy

**One parent for each opinion.** The parent is the latest opinion that is cited, preferably one
whose decision has the same known direction. An opinion that cites none of the set takes the latest
opinion that cites it, with the same preference. An opinion that neither cites nor is cited has no
parent.
-/

namespace Precedent

/-- The rule by which a parent was chosen. -/
inductive SelectionRule where
  /-- The latest cited opinion of the same direction. -/
  | sameDirectionAuthority
  /-- The latest cited opinion. -/
  | latestAuthority
  /-- The latest opinion that cites this one. -/
  | latestCitingCase
deriving DecidableEq, Repr

namespace SelectionRule

def all : List SelectionRule := [sameDirectionAuthority, latestAuthority, latestCitingCase]

def name : SelectionRule → String
  | sameDirectionAuthority => "same_direction_authority"
  | latestAuthority => "latest_authority"
  | latestCitingCase => "latest_citing_case"

end SelectionRule

/-- The parent of an opinion. -/
structure ParentLink where
  child : Nat
  parent : Nat
  /-- The slot of the link between the two. -/
  slot : Nat
  rule : SelectionRule
deriving DecidableEq, Repr

/-- The parents of all opinions. -/
structure Genealogy where
  parents : Array (Option ParentLink)
deriving DecidableEq, Repr

namespace Network

variable (g : Network)

/-- The latest neighbour of an opinion that agrees with its direction, or else the latest neighbour;
with the slot of the link and whether the neighbour agrees. -/
def latestNeighbour? (way : Way) (node : Nat) : Option (Nat × Nat × Bool) :=
  let backwards := ((g.adjacency way).row node).reverse
  let wanted := g.directionAt node
  match backwards.find? fun entry => wanted.agrees (g.directionAt entry.1) with
  | some entry => some (entry.1, entry.2, true)
  | none => backwards.head?.map fun entry => (entry.1, entry.2, false)

def parentOf? (child : Nat) : Option ParentLink :=
  match g.latestNeighbour? .cites child with
  | some (parent, slot, agrees) =>
    some ⟨child, parent, slot, if agrees then .sameDirectionAuthority else .latestAuthority⟩
  | none =>
    (g.latestNeighbour? .citedBy child).map fun (parent, slot, _) =>
      ⟨child, parent, slot, .latestCitingCase⟩

/-- The parents of all opinions. -/
def genealogy : Genealogy := ⟨Array.ofFn fun child : Fin g.size => g.parentOf? child⟩

end Network

namespace Genealogy

variable (t : Genealogy)

def parentOf? (node : Nat) : Option ParentLink := t.parents[node]?.join

/-- All parent links, in the order of the children. -/
def links : List ParentLink := t.parents.toList.filterMap id

/-- How many opinions have no parent. -/
def orphanCount : Nat := t.parents.toList.count none

/-- How many parents each rule has chosen. -/
def ruleCounts : List (SelectionRule × Nat) :=
  SelectionRule.all.map fun rule => (rule, t.links.countP fun l => l.rule == rule)

end Genealogy

end Precedent
