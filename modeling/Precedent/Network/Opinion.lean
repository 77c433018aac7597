import Precedent.Calendar.Date
import Precedent.Opinion.Record

/-!
# Precedent.Network.Opinion

**Filings and their chronological order.** A filing is a record whose date has been read. Within a
set of filings the older one comes first; of two filings of one day, the one that cites less of the
set comes first, then the one with the smaller identifier. Only citations of *other* opinions *of
the set* count, so a citation that leads out of the set has no say in the order. An `Opinion` is a
filing together with its place in that order.
-/

namespace Precedent

/-- A record with its filing date. -/
structure Filing where
  date : Date
  record : OpinionRecord
deriving DecidableEq, Repr

/-- An opinion at its place in the chronological order. -/
structure Opinion where
  /-- The place, counted from 0. -/
  index : Nat
  date : Date
  record : OpinionRecord
deriving DecidableEq, Repr

def Opinion.id (o : Opinion) : OpinionId := o.record.id

/-! ### Chronology -/

/-- What the chronological order looks at. -/
structure Chronology where
  date : Date
  /-- How many other opinions of the set are cited. -/
  resolved : Nat
  id : OpinionId
deriving DecidableEq, Repr

namespace Chronology

/-- By date, then by the number of cited opinions, then by identifier. -/
instance : Ord Chronology where
  compare := compareLex (compareOn Chronology.date) (compareLex (compareOn Chronology.resolved)
    (compareOn Chronology.id))

instance : Std.TransOrd Chronology :=
  inferInstanceAs (Std.TransCmp (compareLex (compareOn Chronology.date)
    (compareLex (compareOn Chronology.resolved) (compareOn Chronology.id))))

instance : Std.LawfulEqOrd Chronology where
  eq_of_compare {a b} h := by
    obtain ⟨da, ra, ia⟩ := a
    obtain ⟨db, rb, ib⟩ := b
    obtain ⟨hd, hrest⟩ := compareLex_eq_eq.1 h
    obtain ⟨hr, hi⟩ := compareLex_eq_eq.1 hrest
    obtain rfl : da = db := Std.LawfulEqOrd.eq_of_compare hd
    obtain rfl : ra = rb := Std.LawfulEqOrd.eq_of_compare hr
    obtain rfl : ia = ib := Std.LawfulEqOrd.eq_of_compare hi
    rfl

end Chronology

/-- How many of the given identifiers a record cites, its own not counted. -/
def OpinionRecord.resolvedCount (r : OpinionRecord) (ids : List OpinionId) : Nat :=
  (r.cited.ids.filter fun id => id != r.id && ids.contains id).length

/-- What places a filing among filings with the given identifiers. -/
def Filing.chronology (ids : List OpinionId) (f : Filing) : Chronology :=
  ⟨f.date, f.record.resolvedCount ids, f.record.id⟩

def filingIds (filings : List Filing) : List OpinionId := filings.map fun f => f.record.id

/-- Filings in chronological order, when the set has the given identifiers. -/
def chronologicalAmong (ids : List OpinionId) (filings : List Filing) : List Filing :=
  let keyed := filings.map fun f => (f.chronology ids, f)
  (keyed.mergeSort fun a b => (compare a.1 b.1).isLE).map Prod.snd

/-- The opinions of filings, each at its place, when the set has the given identifiers. -/
def placedAmong (ids : List OpinionId) (filings : List Filing) : List Opinion :=
  (chronologicalAmong ids filings).zipIdx.map fun (f, index) => ⟨index, f.date, f.record⟩

/-- Filings that are the whole set, in chronological order. -/
def chronological (filings : List Filing) : List Filing :=
  chronologicalAmong (filingIds filings) filings

/-- The opinions of a set of filings, each at its place. -/
def placed (filings : List Filing) : List Opinion := placedAmong (filingIds filings) filings

end Precedent
