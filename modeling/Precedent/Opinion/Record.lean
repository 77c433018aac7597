import Precedent.Opinion.Citations
import Precedent.Opinion.Direction

/-!
# Precedent.Opinion.Record

**The record of an opinion,** as a document gives it: its identifier, its filing date as a text, the
citations it makes and what is known about the case and its votes. The labels of the chart are read
off it: the vote split, the decision label and the name to display.
-/

namespace Precedent

/-- An opinion as a document gives it. -/
structure OpinionRecord where
  id : OpinionId
  /-- The filing date, not read yet. -/
  dateFiled : String
  caseName : Option String
  caseNameShort : Option String
  absoluteUrl : Option String
  citationCount : Option Nat
  decisionDirection : Option Int
  votesMajority : Option Int
  votesMinority : Option Int
  scdbId : Option String
  cited : Citations
deriving DecidableEq, Repr, Inhabited

namespace OpinionRecord

/-- A record of which only the identifier and the filing date are known. -/
def new (id : OpinionId) (dateFiled : String) : OpinionRecord where
  id
  dateFiled
  caseName := none
  caseNameShort := none
  absoluteUrl := none
  citationCount := none
  decisionDirection := none
  votesMajority := none
  votesMinority := none
  scdbId := none
  cited := .empty

def direction (r : OpinionRecord) : Direction := .ofCode r.decisionDirection

/-- The number of dissenting votes, if it is recorded and a bench of nine can have it. -/
def minority? (r : OpinionRecord) : Option Nat :=
  match r.votesMinority with
  | some n => if 0 ≤ n && n ≤ 9 then some n.toNat else none
  | none => none

/-- Whether the vote is missing or out of range. -/
def votesUnknown (r : OpinionRecord) : Bool := r.minority?.isNone

/-- The label of a decision whose vote or direction is unknown. -/
def unknownSplit : String := "Unk"

/-- The vote split, such as `C5-4`. The majority is what the minority leaves of nine votes, since
the recorded majority does not count recused justices; a unanimous vote has no direction. -/
def voteSplit (r : OpinionRecord) : String :=
  match r.minority? with
  | none => unknownSplit
  | some minority =>
    let majority := 9 - minority
    match (if majority = 9 then some 'N' else r.direction.letter?) with
    | some letter =>
      String.ofList (letter :: Text.digitsOf majority ++ '-' :: Text.digitsOf minority)
    | none => unknownSplit

/-- The label that colours connections to this opinion: its direction, if its vote is known. -/
def directionLabel (r : OpinionRecord) : String :=
  if r.votesUnknown then Direction.unknown.label else r.direction.label

/-- The best name there is: the short name, else the name, else the identifier. -/
def displayName (r : OpinionRecord) : String :=
  (r.caseNameShort <|> r.caseName).getD r.id.display

end OpinionRecord

end Precedent
