import Precedent.Proofs.Network.Arrival
import Precedent.Proofs.Network.Counts

/-!
# Precedent.Proofs.Network.Chronology

**The order of the opinions can be read off the finished network.** Filings are sorted before any of
their citations has been resolved: of two filings of one day the one that cites less comes first,
and what it cites is counted among the identifiers that have been taken. In the network the same
citations are the entries of its row. So the opinions increase strictly by date, then by the lengths
of their rows, then by identifier; and since no identifier is taken twice, each of them leads back
to the place where it stands.
-/

namespace Precedent

/-! ### Sorted filings -/

/-- The order of keys, written out. -/
theorem Chronology.compare_eq_lt_iff {a b : Chronology} : compare a b = .lt ↔
    compare a.date b.date = .lt ∨ (a.date = b.date ∧ (a.resolved < b.resolved ∨
      (a.resolved = b.resolved ∧ compare a.id b.id = .lt))) := by
  show compareLex _ (compareLex _ _) a b = .lt ↔ _
  simp [compareLex, compareOn, Ordering.then_eq_lt, Nat.compare_eq_lt]

/-- Of two filings in chronological order the earlier one has the smaller key. -/
theorem pairwise_chronological {filings : List Filing} (hnodup : (filingIds filings).Nodup) :
    (chronological filings).Pairwise fun f f' =>
      compare (f.chronology (filingIds filings)) (f'.chronology (filingIds filings)) = .lt := by
  have hle : (chronological filings).Pairwise fun f f' =>
      (compare (f.chronology (filingIds filings)) (f'.chronology (filingIds filings))).isLE := by
    have hsorted := pairwise_mergeSort_compare Prod.fst (keyed (filingIds filings) filings)
    refine List.pairwise_map.mpr (hsorted.imp_of_mem fun {p q} hp hq hpq => ?_)
    obtain ⟨f, -, rfl⟩ := List.mem_map.mp (List.mem_mergeSort.mp hp)
    obtain ⟨f', -, rfl⟩ := List.mem_map.mp (List.mem_mergeSort.mp hq)
    exact hpq
  have hids : (filingIds (chronological filings)).Nodup :=
    ((chronological_perm filings).map _).nodup_iff.mpr hnodup
  refine (hle.and (List.pairwise_map.mp hids)).imp fun {f f'} h => ?_
  obtain ⟨hle, hne⟩ := h
  cases hcmp : compare (f.chronology (filingIds filings)) (f'.chronology (filingIds filings)) with
  | lt => rfl
  | eq => exact absurd (congrArg Chronology.id (Std.LawfulEqOrd.eq_of_compare hcmp)) hne
  | gt => simp [hcmp] at hle

namespace Network

variable {g : Network} {records : List OpinionRecord} {i j : Nat} {a b o : Opinion}

/-- What is counted to place an opinion is what is found in its row. -/
theorem Drawn.resolvedCount_eq (hg : g.Drawn) {ids : List OpinionId}
    (hids : ∀ id, id ∈ ids ↔ ∃ a ∈ g.opinions.toList, a.id = id) (ho : g.opinions[i]? = some o) :
    o.record.resolvedCount ids = g.outDegree i := by
  rw [hg.outDegree_eq_countP ho, OpinionRecord.resolvedCount, ← List.countP_eq_length_filter]
  refine List.countP_congr fun id _ => ?_
  rw [Bool.and_eq_true, bne_iff_ne, List.contains_iff_mem, hids, List.any_eq_true]
  constructor
  · intro h
    obtain ⟨hne, a, ha, rfl⟩ := h
    exact ⟨a, ha, by rw [Bool.and_eq_true, beq_iff_eq, bne_iff_ne]; exact ⟨rfl, hne⟩⟩
  · intro h
    obtain ⟨a, ha, hboth⟩ := h
    rw [Bool.and_eq_true, beq_iff_eq, bne_iff_ne] at hboth
    obtain ⟨rfl, hne⟩ := hboth
    exact ⟨hne, a, ha, rfl⟩

/-- The order of two opinions: by date, then by how many others of the network they cite, then by
identifier. -/
def Precedes (g : Network) (a b : Opinion) : Prop :=
  compare a.date b.date = .lt ∨ (a.date = b.date ∧
    (g.outDegree a.index < g.outDegree b.index ∨
      (g.outDegree a.index = g.outDegree b.index ∧ compare a.id b.id = .lt)))

/-- What places an opinion, read off the network. -/
def chronologyOf (g : Network) (o : Opinion) : Chronology :=
  ⟨o.date, g.outDegree o.index, o.id⟩

theorem precedes_iff :
    g.Precedes a b ↔ compare (g.chronologyOf a) (g.chronologyOf b) = .lt := by
  rw [Chronology.compare_eq_lt_iff]
  rfl

/-- Opinions at later places come later. -/
theorem precedes_of_lt (h : ofRecords records = .ok g) (hij : i < j)
    (ha : g.opinions[i]? = some a) (hb : g.opinions[j]? = some b) : g.Precedes a b := by
  have hg := (ofRecords_drawn h).2
  obtain ⟨filings, hproper, -, -, rfl⟩ := ofRecords_eq_ok h
  have hids : ∀ id, id ∈ filingIds filings ↔
      ∃ o ∈ (ofOpinions (placed filings)).opinions.toList, o.id = id := by
    intro id
    have hperm := (records_placed filings).map OpinionRecord.id
    rw [List.map_map, List.map_map] at hperm
    rw [← List.mem_map]
    exact hperm.symm.mem_iff
  -- The key by which a filing has been sorted is that of its opinion in the network.
  have hkey : ∀ {i : Nat} {o : Opinion}, (ofOpinions (placed filings)).opinions[i]? = some o →
      ∃ f, (chronological filings)[i]? = some f ∧ f.chronology (filingIds filings) =
        (ofOpinions (placed filings)).chronologyOf o := by
    intro i o ho
    have hcount := hg.resolvedCount_eq hids ho
    have hplaced : (placed filings)[i]? = some o := by rwa [← Array.getElem?_toList] at ho
    rw [getElem?_placed] at hplaced
    obtain ⟨f, hf, rfl⟩ := Option.map_eq_some_iff.mp hplaced
    exact ⟨f, hf, by rw [chronologyOf, ← hcount]; rfl⟩
  obtain ⟨f, hf, hkeyf⟩ := hkey ha
  obtain ⟨f', hf', hkeyf'⟩ := hkey hb
  obtain ⟨hi, rfl⟩ := List.getElem?_eq_some_iff.mp hf
  obtain ⟨hj, rfl⟩ := List.getElem?_eq_some_iff.mp hf'
  rw [precedes_iff, ← hkeyf, ← hkeyf']
  exact List.pairwise_iff_getElem.mp (pairwise_chronological hproper.nodup) i j hi hj hij

/-- The opinions of a network are some records in chronological order. -/
structure Chronological (g : Network) (records : List OpinionRecord) : Prop where
  perm : (g.opinions.toList.map Opinion.record).Perm records
  /-- The date of an opinion is the one that its record names. -/
  date : ∀ o ∈ g.opinions, parseDate o.record.dateFiled = some o.date
  /-- An opinion knows its place. -/
  index : ∀ i (o : Opinion), g.opinions[i]? = some o → o.index = i
  increasing : g.opinions.toList.Pairwise g.Precedes
  /-- An identifier leads to the place of the opinion that has it. -/
  indexOf?_eq_some_iff : ∀ id i, g.indexOf? id = some i ↔ g.idAt? i = some id
  /-- No other identifier leads anywhere. -/
  indexOf?_eq_none_iff : ∀ id, g.indexOf? id = none ↔ ∀ r ∈ records, r.id ≠ id

/-- **The opinions stand in chronological order**, for every list of records that is accepted. -/
theorem ofRecords_chronological (h : ofRecords records = .ok g) : g.Chronological records := by
  obtain ⟨hrecords, hg⟩ := ofRecords_drawn h
  refine
    { perm := hrecords
      date := fun o ho => parseDate_of_mem_opinions h ho
      index := ?_
      increasing := ?_
      indexOf?_eq_some_iff := fun _ _ => hg.indexOf?_eq_some_iff
      indexOf?_eq_none_iff := ?_ }
  · intro i o ho
    exact hg.wellPlaced.index_eq (Array.getElem?_toList.trans ho)
  · refine List.pairwise_iff_getElem.mpr fun i j hi hj hij => precedes_of_lt h hij ?_ ?_
    · rw [← Array.getElem?_toList, List.getElem?_eq_getElem hi]
    · rw [← Array.getElem?_toList, List.getElem?_eq_getElem hj]
  · intro id
    rw [Network.indexOf?_eq_none_iff]
    constructor
    · intro hnone r hr
      obtain ⟨o, ho, rfl⟩ := List.mem_map.mp (hrecords.mem_iff.mpr hr)
      exact hnone o (Array.mem_def.mpr ho)
    · intro hnone o ho
      exact hnone o.record (record_mem_of_mem_opinions h ho)

/-- Four records of one day. The first one cites an opinion that is not in the set and itself, which
do not count; the others cite one of the set, or two. -/
def sameDayRecords : List OpinionRecord :=
  [{ OpinionRecord.new (.number 4) "1900-01-01" with
      cited := .ofIds [.number 4, .number 8, .number 9] },
    { OpinionRecord.new (.number 1) "1900-01-01" with cited := .ofIds [.number 2, .number 3] },
    { OpinionRecord.new (.number 3) "1900-01-01" with cited := .ofIds [.number 4] },
    { OpinionRecord.new (.number 2) "1900-01-01" with cited := .ofIds [.number 4, .text "?"] }]

theorem sameDayRecords_chronological : ∃ g, ofRecords sameDayRecords = .ok g ∧
    (List.range 4).map (fun i => (g.idAt? i, g.outDegree i)) =
      [(some (.number 4), 0), (some (.number 2), 1), (some (.number 3), 1),
        (some (.number 1), 2)] ∧
    g.Chronological sameDayRecords := by
  obtain ⟨g, hok, hplaces⟩ := exists_ok_of_map_toOption (x := ofRecords sameDayRecords)
    (f := fun g => (List.range 4).map fun i => (g.idAt? i, g.outDegree i))
    (b := [(some (.number 4), 0), (some (.number 2), 1), (some (.number 3), 1),
        (some (.number 1), 2)]) (by cbv)
  exact ⟨g, hok, hplaces, ofRecords_chronological hok⟩

end Network

end Precedent
