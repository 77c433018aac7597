/-!
# Precedent.Lookup.Recency

**A bounded store that forgets what was used longest ago.** A table holds the values and a queue the
keys in the order of their last use, the oldest first. A use is an insertion, or a look-up that
hits. When a new key comes and the store is full, the first key of the queue goes. A store of
capacity 0 keeps nothing. Counters say how many look-ups hit and missed and how many entries had to
go; `clear` drops the entries and keeps the counters.
-/

namespace Precedent

/-- What a store has counted. -/
structure UseCounts where
  hits : Nat
  misses : Nat
  evictions : Nat
deriving DecidableEq, Repr

/-- A bounded store. -/
structure RecencyStore (κ υ : Type) where
  capacity : Nat
  /-- The values by key, in no particular order. -/
  entries : List (κ × υ)
  /-- The keys, the one with the oldest last use first. -/
  recency : List κ
  counts : UseCounts
deriving Repr

namespace RecencyStore

variable {κ υ : Type} [DecidableEq κ]

def new (capacity : Nat) : RecencyStore κ υ := ⟨capacity, [], [], ⟨0, 0, 0⟩⟩

/-! ### What is held -/

/-- The keys of the table. -/
def keys (s : RecencyStore κ υ) : List κ := s.entries.map Prod.fst

/-- The number of entries. -/
def size (s : RecencyStore κ υ) : Nat := s.entries.length

/-- Whether a key is held. This is no use. -/
def contains (s : RecencyStore κ υ) (k : κ) : Bool := s.keys.contains k

/-- The value of a key. This is no use. -/
def find? (s : RecencyStore κ υ) (k : κ) : Option υ := s.entries.lookup k

/-! ### Changes of the table and the queue -/

/-- The entries without those of a key. -/
def without (k : κ) (entries : List (κ × υ)) : List (κ × υ) := entries.filter fun e => e.1 != k

/-- Put a value at a key of the table. -/
def put (s : RecencyStore κ υ) (k : κ) (v : υ) : RecencyStore κ υ :=
  { s with entries := (k, v) :: without k s.entries }

/-- Move a key of the queue to its end. -/
def touch (s : RecencyStore κ υ) (k : κ) : RecencyStore κ υ :=
  { s with recency := if s.recency.contains k then s.recency.erase k ++ [k] else s.recency }

/-- Drop the key with the oldest last use. -/
def evict (s : RecencyStore κ υ) : RecencyStore κ υ :=
  match s.recency with
  | [] => s
  | oldest :: rest =>
    { s with
      entries := without oldest s.entries
      recency := rest
      counts := { s.counts with evictions := s.counts.evictions + 1 } }

/-- Drop an entry if there is no room for another one. -/
def makeRoom (s : RecencyStore κ υ) : RecencyStore κ υ :=
  if s.capacity ≤ s.size then s.evict else s

/-- Put a key at the end of the queue. -/
def enqueue (s : RecencyStore κ υ) (k : κ) : RecencyStore κ υ :=
  { s with recency := s.recency ++ [k] }

/-! ### Operations -/

/-- A look-up that finds a key counts it and makes it the newest. -/
def hit (s : RecencyStore κ υ) (k : κ) : RecencyStore κ υ :=
  { s.touch k with counts := { s.counts with hits := s.counts.hits + 1 } }

/-- A look-up that finds nothing is only counted. -/
def miss (s : RecencyStore κ υ) : RecencyStore κ υ :=
  { s with counts := { s.counts with misses := s.counts.misses + 1 } }

/-- Look up a key. -/
def get (s : RecencyStore κ υ) (k : κ) : Option υ × RecencyStore κ υ :=
  match s.find? k with
  | some v => (some v, s.hit k)
  | none => (none, s.miss)

/-- Put a value at a key and make it the newest. A new key drops the oldest entry of a full
store. -/
def insert (s : RecencyStore κ υ) (k : κ) (v : υ) : RecencyStore κ υ :=
  if s.capacity = 0 then s
  else if s.contains k then (s.touch k).put k v
  else (s.makeRoom.enqueue k).put k v

/-- The value of a key, computed and inserted if the key is not held. A computation that fails
leaves the entries as they are. -/
def getOrInsert {ε : Type} (s : RecencyStore κ υ) (k : κ) (compute : Unit → Except ε υ) :
    Except ε υ × RecencyStore κ υ :=
  match s.get k with
  | (some v, s) => (.ok v, s)
  | (none, s) =>
    match compute () with
    | .ok v => (.ok v, s.insert k v)
    | .error e => (.error e, s)

/-- Drop all entries. -/
def clear (s : RecencyStore κ υ) : RecencyStore κ υ := { s with entries := [], recency := [] }

end RecencyStore

end Precedent
