import Precedent.Genealogy
import Precedent.Lookup.Recency
import Precedent.Network.Docket
import Precedent.Network.Loop
import Precedent.Network.Separation
import Precedent.Settings

/-!
# Precedent.Atlas

**Everything that is computed once for a set of opinions.** An atlas holds the citation network with
its distances, degrees, parents and loops. The mode can be switched without computing any of them
anew, and the summaries that have been asked for are kept for later. A summary says at a glance what
an opinion rests on: it lists every identifier that the opinion cites, and counts those of the set,
and the opinions of the set that cite it.
-/

namespace Precedent

/-- The authorities of an opinion. -/
structure AuthoritySummary where
  /-- Every cited identifier, inside the set or not. -/
  authorityIds : List OpinionId
  /-- How many cited opinions are in the set. -/
  authorityCount : Nat
  /-- How many opinions of the set cite it. -/
  citingCount : Nat
deriving DecidableEq, Repr

abbrev AuthorityStore := RecencyStore OpinionId AuthoritySummary

/-- The summary of the opinion at an index. -/
def Network.authoritySummary (g : Network) (node : Nat) : AuthoritySummary where
  authorityIds := (g.opinions[node]?.map fun o => o.record.cited.ids).getD []
  authorityCount := g.outDegree node
  citingCount := g.inDegree node

/-- A citation network with all that is drawn from it. -/
structure Atlas where
  network : Network
  distances : Distances
  degrees : Degrees
  genealogy : Genealogy
  loops : List (List OpinionId)
  mode : Mode
  summaries : AuthorityStore

namespace Atlas

def ofNetwork (g : Network) (settings : Settings) : Atlas :=
  let distances := g.distances
  { network := g
    distances
    degrees := distances.degrees g.size g.linkCount
    genealogy := g.genealogy
    loops := g.loops
    mode := settings.mode
    summaries := .new settings.cacheCapacity }

/-- The atlas of a list of records. -/
def build (records : List OpinionRecord) (settings : Settings) : Except Fault Atlas :=
  (Network.ofRecords records).map fun g => ofNetwork g settings

def setMode (a : Atlas) (mode : Mode) : Atlas := { a with mode }

def degreeOf? (a : Atlas) (id : OpinionId) : Option Degree :=
  (a.network.indexOf? id).map a.degrees.node

/-- The authorities of an opinion, from the store if they are held there. An identifier that is not
in the set is refused before the store is asked. -/
def authorities (a : Atlas) (id : OpinionId) : Except Fault AuthoritySummary × Atlas :=
  match a.network.indexOf? id with
  | none => (.error (.unknownOpinion id), a)
  | some node =>
    let (summary, summaries) :=
      a.summaries.getOrInsert id fun _ => .ok (a.network.authoritySummary node)
    (summary, { a with summaries })

end Atlas

end Precedent
