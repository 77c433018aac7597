import Precedent.Network.Adjacency
import Precedent.Network.Link
import Precedent.Network.Opinion

/-!
# Precedent.Network.Basic

**The citation network of a set of opinions.** The opinions stand in chronological order and are
addressed by their index. Citations of one opinion of the set by another are kept in both
directions, each with the slot of the link it belongs to; citations of other opinions, or of the
opinion itself, are only counted.

Citations are entered one after the other, by citing opinion and then by cited opinion. A citation
*opens* a link unless its reverse has been entered before, and the slots of the links are numbered
as they are opened. So the link of two opinions that cite each other belongs to the earlier one.
-/

namespace Precedent

/-- Which way to walk along citations. -/
inductive Way where
  /-- From an opinion to the opinions it cites. -/
  | cites
  /-- From an opinion to the opinions that cite it. -/
  | citedBy
deriving DecidableEq, Repr

/-- Citations that were not kept, and citations that opened no link. -/
structure Tally where
  /-- Citations that lead out of the set. -/
  dangling : Nat
  /-- Citations of an opinion by itself. -/
  ofSelf : Nat
  /-- Citations whose reverse had opened the link already. -/
  folded : Nat
deriving DecidableEq, Repr

/-- A citation network. -/
structure Network where
  opinions : Array Opinion
  cites : Adjacency
  citedBy : Adjacency
  links : Array Link
  tally : Tally
deriving DecidableEq, Repr

/-! ### Resolving citations -/

/-- What the citations of one opinion come to. -/
structure Resolution where
  /-- The other opinions of the set that are cited. -/
  cited : List Opinion
  /-- Citations that lead out of the set. -/
  dangling : Nat
  /-- Citations of the opinion by itself. -/
  ofSelf : Nat
deriving DecidableEq, Repr

namespace Resolution

def empty : Resolution := ⟨[], 0, 0⟩

/-- Find the opinion that one more citation names. -/
def resolve (opinions : List Opinion) (citing : Opinion) (r : Resolution) (id : OpinionId) :
    Resolution :=
  match opinions.find? fun o => o.id == id with
  | none => { r with dangling := r.dangling + 1 }
  | some cited =>
    if cited.index = citing.index then { r with ofSelf := r.ofSelf + 1 }
    else { r with cited := r.cited ++ [cited] }

def of (opinions : List Opinion) (citing : Opinion) : Resolution :=
  citing.record.cited.ids.foldl (resolve opinions citing) empty

/-- The cited opinions in chronological order, each of them once. -/
def targets (r : Resolution) : List Opinion :=
  (r.cited.mergeSort fun a b => a.index ≤ b.index).eraseRepsBy fun a b => a.index == b.index

end Resolution

/-! ### Entering citations -/

/-- The citations that have been entered, and the links they belong to. -/
structure Register where
  links : Array Link
  cites : Adjacency
  /-- Citations whose reverse had opened the link already. -/
  folded : Nat
deriving DecidableEq, Repr

namespace Register

/-- No citation has been entered. -/
def empty : Register := ⟨#[], .empty, 0⟩

/-- Enter a citation. A link with its key is there if the reverse citation has been entered, and is
mutual then; otherwise the citation opens a link. -/
def enter (citing : Opinion) (r : Register) (cited : Opinion) : Register :=
  let key := LinkKey.of citing.id cited.id
  match r.links.findIdx? fun l => l.key == key with
  | some slot =>
    { links := r.links.modify slot fun l => { l with isMutual := true }
      cites := r.cites.push cited.index slot
      folded := r.folded + 1 }
  | none =>
    { r with
      links := r.links.push ⟨key, citing.index, cited.index, false⟩
      cites := r.cites.push cited.index r.links.size }

def enterRow (r : Register) (citing : Opinion) (targets : List Opinion) : Register :=
  let r := targets.foldl (enter citing) r
  { r with cites := r.cites.close }

def enterAll (rows : List (Opinion × List Opinion)) : Register :=
  rows.foldl (fun r row => r.enterRow row.1 row.2) empty

end Register

namespace Network

/-- The network of opinions that stand at their places. -/
def ofOpinions (opinions : List Opinion) : Network :=
  let resolutions := opinions.map (Resolution.of opinions)
  let register := Register.enterAll (opinions.zip (resolutions.map Resolution.targets))
  { opinions := opinions.toArray
    cites := register.cites
    citedBy := register.cites.transpose opinions.length
    links := register.links
    tally :=
      { dangling := resolutions.foldl (fun total r => total + r.dangling) 0
        ofSelf := resolutions.foldl (fun total r => total + r.ofSelf) 0
        folded := register.folded } }

/-! ### Looking up -/

variable (g : Network)

/-- The number of opinions. -/
def size : Nat := g.opinions.size

def linkCount : Nat := g.links.size

/-- The number of citations among the opinions; two that are mutual count twice. -/
def citationCount : Nat := g.cites.size

/-- The index of the earliest opinion. -/
def earliest : Nat := 0

/-- The index of the latest opinion. -/
def latest : Nat := g.size - 1

/-- The neighbour lists of one way. -/
def adjacency : Way → Adjacency
  | .cites => g.cites
  | .citedBy => g.citedBy

def indexOf? (id : OpinionId) : Option Nat := g.opinions.findIdx? fun o => o.id == id

/-- The identifier at an index. -/
def idAt? (node : Nat) : Option OpinionId := g.opinions[node]?.map Opinion.id

/-- The direction of the opinion at an index. -/
def directionAt (node : Nat) : Direction :=
  match g.opinions[node]? with
  | some o => o.record.direction
  | none => .unknown

/-- How many opinions of the set an opinion cites. -/
def outDegree (node : Nat) : Nat := g.cites.degree node

/-- How many opinions of the set cite an opinion. -/
def inDegree (node : Nat) : Nat := g.citedBy.degree node

/-- Whether an opinion cites another one. -/
def hasCitation (citing cited : Nat) : Bool := g.cites.joins citing cited

/-- The slot of the link between two opinions, whichever of them cites. -/
def linkBetween? (a b : Nat) : Option Nat := g.cites.slot? a b <|> g.cites.slot? b a

/-- Whether an opinion neither cites nor is cited within the set. -/
def isIsolated (node : Nat) : Bool := g.outDegree node == 0 && g.inDegree node == 0

end Network

end Precedent
