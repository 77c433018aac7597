import Precedent.Proofs.Network.Counts

/-!
# Precedent.Proofs.Network.Representation

**The flat arrays represent the citations exactly.** For every list of records that is accepted, the
rows of the network hold the citations among the records and nothing else, in both directions, in
increasing order and with the same slots; and the offsets mark the rows off without gap or overlap.

No number in the arrays is larger than those of opinions and citations, nor is any while the reverse
rows are filled. So whichever words hold the latter hold the arrays.
-/

namespace Precedent

namespace Adjacency

/-- Offsets that mark off the rows of some nodes without gap or overlap. -/
structure MarksOff (a : Adjacency) (nodes entries : Nat) : Prop where
  size_offsets : a.offsets.size = nodes + 1
  first : a.offsets[0]? = some 0
  mono : a.offsets.toList.Pairwise (· ≤ ·)
  last : a.offsets[nodes]? = some entries
  size_targets : a.targets.size = entries
  size_slots : a.slots.size = entries

/-- The offsets of stored rows mark them off. -/
theorem ofRows_marksOff (rows : List (List (Nat × Nat))) :
    (ofRows rows).MarksOff rows.length rows.flatten.length where
  size_offsets := by rw [ofRows, List.size_toArray, length_runningTotals, List.length_map]
  first := by
    rw [ofRows, List.getElem?_toArray, getElem?_runningTotals 0 (Nat.zero_le _)]
    rfl
  mono := pairwise_runningTotals 0 _
  last := by
    have hlast := rowStart_of_le (Nat.le_refl rows.length)
    rw [ofRows, List.getElem?_toArray, getElem?_runningTotals 0 (by simp), Nat.zero_add]
    exact congrArg some hlast
  size_targets := by rw [ofRows, List.size_toArray, List.length_map]
  size_slots := by rw [ofRows, List.size_toArray, List.length_map]

/-- No row starts behind the last entry. -/
theorem MarksOff.offset_le {a : Adjacency} {nodes entries n : Nat}
    (h : a.MarksOff nodes entries) (hn : n ∈ a.offsets) : n ≤ entries := by
  obtain ⟨hlast, hentries⟩ := Array.getElem?_eq_some_iff.mp h.last
  obtain ⟨i, hi, rfl⟩ := Array.mem_iff_getElem.mp hn
  have hle : i ≤ nodes := Nat.le_of_lt_succ (hi.trans_eq h.size_offsets)
  rcases Nat.eq_or_lt_of_le hle with rfl | hlt
  · exact hentries.le
  · exact hentries ▸ List.pairwise_iff_getElem.mp h.mono i nodes hi hlast hlt

/-- All numbers in neighbour lists are below a bound. -/
structure Below (a : Adjacency) (bound : Nat) : Prop where
  offset_lt : ∀ n ∈ a.offsets, n < bound
  target_lt : ∀ n ∈ a.targets, n < bound
  slot_lt : ∀ n ∈ a.slots, n < bound

theorem ofRows_below {rowOf : Nat → List (Nat × Nat)} {nodes entries bound : Nat}
    (h : (ofRows ((List.range nodes).map rowOf)).MarksOff nodes entries) (hcount : entries < bound)
    (hrows : ∀ node, ∀ entry ∈ rowOf node, entry.1 < bound ∧ entry.2 < bound) :
    (ofRows ((List.range nodes).map rowOf)).Below bound := by
  have hentries : ∀ entry ∈ ((List.range nodes).map rowOf).flatten,
      entry.1 < bound ∧ entry.2 < bound := by
    intro entry hentry
    obtain ⟨row, hrow, hentry⟩ := List.mem_flatten.mp hentry
    obtain ⟨node, -, rfl⟩ := List.mem_map.mp hrow
    exact hrows node entry hentry
  refine ⟨fun n hn => (h.offset_le hn).trans_lt hcount, fun n hn => ?_, fun n hn => ?_⟩
  · obtain ⟨entry, hentry, rfl⟩ := List.mem_map.mp (List.mem_toArray.mp hn)
    exact (hentries entry hentry).1
  · obtain ⟨entry, hentry, rfl⟩ := List.mem_map.mp (List.mem_toArray.mp hn)
    exact (hentries entry hentry).2

end Adjacency

namespace Network

/-- The arrays of a network represent who cites whom. -/
structure Represents (g : Network) : Prop where
  /-- The row of an opinion holds what it cites. -/
  mem_cites : ∀ i j, j ∈ g.cites.neighbours i ↔ g.Cites i j
  /-- The reverse row of an opinion holds what cites it. -/
  mem_citedBy : ∀ i j, i ∈ g.citedBy.neighbours j ↔ j ∈ g.cites.neighbours i
  increasing : ∀ way i, ((g.adjacency way).neighbours i).Pairwise (· < ·)
  marksOff : ∀ way, (g.adjacency way).MarksOff g.size g.citationCount
  /-- A citation has the same slot in both directions. -/
  slots : ∀ i j slot, (j, slot) ∈ g.cites.row i ↔ (i, slot) ∈ g.citedBy.row j

/-- Every number in the arrays of a network is below a bound, and so is every number that is kept
while the reverse rows are filled. -/
structure FitsBelow (g : Network) (bound : Nat) : Prop where
  arrays : ∀ way, (g.adjacency way).Below bound
  counts : ∀ n ∈ g.cites.counts g.size, n < bound
  /-- Every row has a cursor below the bound, whichever entries have been carried. -/
  cursors : ∀ seen rest, g.cites.entries g.size = seen ++ rest → ∀ node < g.size, ∃ place,
    (Adjacency.Transposition.after g.cites g.size seen).cursor[node]? = some place ∧ place < bound

namespace Drawn

variable {g : Network} (hg : g.Drawn)
include hg

theorem citationCount_eq :
    g.citationCount = ((List.range g.size).map g.citing.citedRow).flatten.length := by
  rw [citationCount, hg.cites, Adjacency.size_ofRows]

theorem marksOff (way : Way) : (g.adjacency way).MarksOff g.size g.citationCount := by
  have hcited := Adjacency.ofRows_marksOff ((List.range g.size).map g.citing.citedRow)
  have hcitedBy := Adjacency.ofRows_marksOff ((List.range g.size).map g.citing.citedByRow)
  rw [List.length_map, List.length_range] at hcited hcitedBy
  cases way with
  | cites =>
      rw [adjacency, hg.citationCount_eq, hg.cites]
      exact hcited
  | citedBy =>
      have hcount := g.citing.length_flatten_citedByRow
      rw [size_citing] at hcount
      rw [adjacency, hg.citationCount_eq, hg.citedBy, ← hcount]
      exact hcitedBy

/-- The numbers in the arrays are below a bound if there are no more opinions and fewer citations.
-/
theorem below {bound : Nat} (hsize : g.size ≤ bound) (hcount : g.citationCount < bound)
    (way : Way) : (g.adjacency way).Below bound := by
  have hslot : ∀ {i j}, g.Cites i j → g.citing.slot i j < bound := fun hcites =>
    (hg.slot_lt hcites).trans_le (hg.linkCount_le.trans hcount.le)
  have hmarks := hg.marksOff way
  cases way with
  | cites =>
      rw [adjacency, hg.cites] at hmarks ⊢
      refine Adjacency.ofRows_below hmarks hcount fun i entry hentry => ?_
      rw [← hg.row_cites] at hentry
      obtain ⟨hcites, hentry⟩ := hg.mem_row_cites.mp hentry
      exact ⟨hcites.right_lt.trans_le hsize, hentry ▸ hslot hcites⟩
  | citedBy =>
      rw [adjacency, hg.citedBy] at hmarks ⊢
      refine Adjacency.ofRows_below hmarks hcount fun j entry hentry => ?_
      rw [← hg.row_citedBy] at hentry
      obtain ⟨hcites, hentry⟩ := hg.mem_row_citedBy.mp hentry
      exact ⟨hcites.left_lt.trans_le hsize, hentry ▸ hslot hcites⟩

theorem fitsBelow {bound : Nat} (hsize : g.size ≤ bound) (hcount : g.citationCount < bound) :
    g.FitsBelow bound := by
  have htargets : g.cites.targets.toList = (g.cites.entries g.size).map fun e => e.2.1 := by
    rw [hg.cites]
    exact Adjacency.targets_ofRows _
  have hlt : ∀ e ∈ g.cites.entries g.size, e.2.1 < g.size := by
    rw [hg.cites, ← g.size_citing]
    exact Adjacency.lt_of_mem_entries_ofRows Citing.citedRow_lt
  refine ⟨hg.below hsize hcount, fun n hn => ?_, fun seen rest hsplit node hnode => ?_⟩
  · exact (Adjacency.le_size_of_mem_counts htargets hlt hn).trans_lt hcount
  · obtain ⟨place, hcursor, hle⟩ := Adjacency.cursor_le_size htargets hlt hsplit hnode
    exact ⟨place, hcursor, hle.trans_lt hcount⟩

end Drawn

/-- **The arrays represent the records.** A network that is built from records holds these records,
and its arrays represent who cites whom among them. -/
theorem ofRecords_represents {records : List OpinionRecord} {g : Network}
    (h : ofRecords records = .ok g) :
    (g.opinions.toList.map Opinion.record).Perm records ∧ g.Represents := by
  obtain ⟨hrecords, hg⟩ := ofRecords_drawn h
  refine ⟨hrecords, fun i j => hg.mem_neighbours_cites, fun i j => ?_, fun way i => ?_,
    hg.marksOff, fun i j slot => ?_⟩
  · rw [hg.mem_neighbours_citedBy, hg.mem_neighbours_cites]
  · cases way with
    | cites => exact hg.pairwise_neighbours_cites i
    | citedBy => exact hg.pairwise_neighbours_citedBy i
  · rw [hg.mem_row_cites, hg.mem_row_citedBy]

theorem fiveRecords_represents : ∃ g, ofRecords fiveRecords = .ok g ∧
    g.cites.neighbours 2 = [1, 3] ∧
    (g.opinions.toList.map Opinion.record).Perm fiveRecords ∧ g.Represents := by
  obtain ⟨g, hok, hrow⟩ := exists_ok_of_map_toOption (x := ofRecords fiveRecords)
    (f := fun g => g.cites.neighbours 2) (b := [1, 3]) (by cbv)
  exact ⟨g, hok, hrow, ofRecords_represents hok⟩

/-- **Words of 32 bits hold the arrays** as long as they hold the numbers of opinions and
citations. -/
theorem ofRecords_fitsBelow {records : List OpinionRecord} {g : Network}
    (h : ofRecords records = .ok g) (hsize : g.size < 2 ^ 32) (hcount : g.citationCount < 2 ^ 32) :
    g.FitsBelow (2 ^ 32) :=
  (ofRecords_drawn h).2.fitsBelow hsize.le hcount

end Network

end Precedent
