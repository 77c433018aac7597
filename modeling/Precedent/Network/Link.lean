import Precedent.Opinion.Id

/-!
# Precedent.Network.Link

**Links.** Two opinions that are joined by a citation have one link, whether one cites the other or
both do. Its key is the pair of their identifiers with the smaller one first, whichever of them
cites.
-/

namespace Precedent

/-- The two identifiers of a link, the smaller one first. -/
structure LinkKey where
  low : OpinionId
  high : OpinionId
deriving DecidableEq, Repr

namespace LinkKey

/-- The key of the link between two opinions. -/
def of (a b : OpinionId) : LinkKey := if (compare a b).isLE then ⟨a, b⟩ else ⟨b, a⟩

def display (k : LinkKey) : String := k.low.display ++ ":" ++ k.high.display

end LinkKey

/-- A link between two opinions. -/
structure Link where
  key : LinkKey
  /-- The index of the opinion that cites; of the earlier one if both do. -/
  citing : Nat
  /-- The index of the opinion that is cited. -/
  cited : Nat
  /-- Whether both opinions cite each other. -/
  isMutual : Bool
deriving DecidableEq, Repr

end Precedent
