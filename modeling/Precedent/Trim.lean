import Precedent.Atlas
import Precedent.Bisect

/-!
# Precedent.Trim

**Cutting a map down to a degree limit.** An opinion is kept when its degree falls under the limit;
the opinions that are kept are numbered anew, from 1. Which links between them are kept depends on
the mode: those that fall under the limit themselves, all of them, or the parent links.
-/

namespace Precedent

/-- An opinion that is kept. -/
structure KeptOpinion where
  index : Nat
  /-- Its place among the kept opinions, counted from 1. -/
  position : Nat
  degree : Degree
deriving DecidableEq, Repr

/-- A link that is kept. -/
structure KeptLink where
  slot : Nat
  /-- The index of the citing opinion, or of the child of a parent link. -/
  source : Nat
  /-- The index of the cited opinion, or of the parent. -/
  target : Nat
  degree : Degree
deriving DecidableEq, Repr

/-- A map cut down to a degree limit. -/
structure TrimmedMap where
  limit : Nat
  mode : Mode
  opinions : List KeptOpinion
  links : List KeptLink
deriving DecidableEq, Repr

/-- The place of an opinion among those kept, if it is; their indices increase. -/
def TrimmedMap.positionOf? (t : TrimmedMap) (index : Nat) : Option Nat :=
  let kept := t.opinions.toArray
  let place? := bisect (fun place => kept[place]?.elim 0 KeptOpinion.index) index 0 kept.size
  (place?.bind fun place => kept[place]?).map KeptOpinion.position

namespace Atlas

variable (a : Atlas)

/-- Whether an opinion is kept under a limit. -/
def keeps (limit node : Nat) : Bool := (a.degrees.node node).isBelow limit

def keptOpinions (limit : Nat) : List KeptOpinion :=
  ((List.range a.network.size).filter (a.keeps limit)).zipIdx.map fun (index, before) =>
    ⟨index, before + 1, a.degrees.node index⟩

/-- All links, each from its citing to its cited opinion. -/
def citationLinks : List KeptLink :=
  a.network.links.toList.zipIdx.map fun (link, slot) =>
    ⟨slot, link.citing, link.cited, a.degrees.link slot⟩

/-- All parent links, each from child to parent. -/
def parentLinks : List KeptLink :=
  a.genealogy.links.map fun p => ⟨p.slot, p.child, p.parent, a.degrees.link p.slot⟩

def keepsEnds (limit : Nat) (l : KeptLink) : Bool :=
  a.keeps limit l.source && a.keeps limit l.target

/-- The links kept under a limit. A link that is the parent link of both its ends is listed once,
for the earlier child. -/
def keptLinks (limit : Nat) : List KeptLink :=
  match a.mode with
  | .genealogy =>
    (a.parentLinks.filter (a.keepsEnds limit)).eraseDupsBy fun l l' => l.slot == l'.slot
  | .degrees | .spaeth =>
    (a.citationLinks.filter (a.keepsEnds limit)).filter fun l =>
      !a.mode.thresholdsLinks || l.degree.isBelow limit

/-- The map cut down to a limit. A limit of 0 would keep nothing and is refused. -/
def trim (limit : Nat) : Except Fault TrimmedMap :=
  if limit = 0 then .error (.invalidDegreeLimit limit)
  else .ok ⟨limit, a.mode, a.keptOpinions limit, a.keptLinks limit⟩

end Atlas

end Precedent
