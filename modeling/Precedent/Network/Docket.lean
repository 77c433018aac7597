import Precedent.Calendar.Reader
import Precedent.Fault
import Precedent.Network.Basic

/-!
# Precedent.Network.Docket

**Collecting opinions.** A docket takes up records one after the other. A record is refused when its
filing date names no date, and then when its identifier is taken; a record that is refused leaves
the docket as it was, so its identifier stays free. `Docket.network` puts what was taken up into
chronological order and resolves the citations.

The identifiers that are taken are kept beside the filings. They decide which records are refused,
and later which citations count in the chronological order.
-/

namespace Precedent

/-- What has been taken up so far. -/
structure Docket where
  /-- The filings in the order in which they came. -/
  filings : List Filing
  /-- The identifiers that are taken. -/
  taken : List OpinionId
deriving DecidableEq, Repr

namespace Docket

/-- Nothing has been taken up. -/
def empty : Docket := ⟨[], []⟩

/-- Take an identifier, and say whether it was free. -/
def reserve (d : Docket) (id : OpinionId) : Bool × Docket :=
  if d.taken.contains id then (false, d) else (true, { d with taken := d.taken ++ [id] })

/-- Put a filing behind the others. -/
def append (d : Docket) (f : Filing) : Docket := { d with filings := d.filings ++ [f] }

/-- Hand in a record: whether it is taken up, and the docket after that. -/
def submit (d : Docket) (r : OpinionRecord) : Except Fault Unit × Docket :=
  match parseDate r.dateFiled with
  | none => (.error (.invalidDate r.id r.dateFiled), d)
  | some date =>
    match d.reserve r.id with
    | (false, d) => (.error (.duplicateOpinion r.id), d)
    | (true, d) => (.ok (), d.append ⟨date, r⟩)

/-- Take up a record. -/
def add (d : Docket) (r : OpinionRecord) : Except Fault Docket :=
  match d.submit r with
  | (.ok _, d) => .ok d
  | (.error fault, _) => .error fault

/-- Take up records until one is refused. -/
def addAll (d : Docket) (records : List OpinionRecord) : Except Fault Docket :=
  records.foldlM add d

/-- The citation network of the filings. -/
def network (d : Docket) : Except Fault Network :=
  if d.filings.isEmpty then .error .emptyDataset
  else .ok (.ofOpinions (placedAmong d.taken d.filings))

end Docket

/-- The citation network of a list of records. -/
def Network.ofRecords (records : List OpinionRecord) : Except Fault Network := do
  let docket ← Docket.empty.addAll records
  docket.network

end Precedent
