/-!
# Precedent.Opinion.Direction

**The ideological direction of a decision,** as the codes 0 to 3 of the court database give it; a
missing code or any other number leaves it unknown. An unknown direction agrees with none.
-/

namespace Precedent

/-- The direction of a decision. -/
inductive Direction where
  | neutral
  | conservative
  | liberal
  | unspecifiable
  | unknown
deriving DecidableEq, Repr, Inhabited

namespace Direction

/-- All directions, in the order of their codes. -/
def all : List Direction := [neutral, conservative, liberal, unspecifiable, unknown]

def ofCode : Option Int → Direction
  | some 0 => neutral
  | some 1 => conservative
  | some 2 => liberal
  | some 3 => unspecifiable
  | _ => unknown

/-- The letter in front of a vote split. -/
def letter? : Direction → Option Char
  | neutral => some 'N'
  | conservative => some 'C'
  | liberal => some 'L'
  | unspecifiable => some 'U'
  | unknown => none

/-- The name of the direction as a legend shows it. -/
def label : Direction → String
  | neutral => "Neutral"
  | conservative => "Conservative"
  | liberal => "Liberal"
  | unspecifiable => "Unspecifiable"
  | unknown => "Unknown"

def isKnown (d : Direction) : Bool := d != unknown

/-- Two directions agree when they are equal and known. -/
def agrees (a b : Direction) : Bool := a.isKnown && a == b

end Direction

end Precedent
