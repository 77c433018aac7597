import Precedent.Network.Separation
import Precedent.Proofs.Network.LinkTable
import Precedent.Proofs.Network.Sweep

/-!
# Precedent.Proofs.Network.Distances

**The distances of a network are those of shortest citation chains.** The backward distance of an
opinion is the length of a shortest chain of citations that leads from the latest opinion to it,
the forward distance that of a shortest chain from it to the earliest opinion. The forward sweep
walks the reverse rows, so its chains are those of the citations, walked the other way.

The depths of links are least lengths too: of chains that end with one of the link's citations, or
begin with one.
-/

namespace Precedent

namespace Network

namespace Drawn

variable {g : Network} (hg : g.Drawn) {i j slot root : Nat}
include hg

/-! ### Rows as steps -/

theorem leads_cites : g.cites.Leads = g.Cites := by
  funext i j
  exact propext hg.mem_neighbours_cites

theorem leads_citedBy : g.citedBy.Leads = fun j i => g.Cites i j := by
  funext j i
  exact propext hg.mem_neighbours_citedBy

/-- The rows of a network name opinions and links of the network. -/
theorem fits (way : Way) : (g.adjacency way).Fits g.size g.linkCount := by
  cases way with
  | cites =>
      refine ⟨fun hentry => (hg.mem_row_cites.mp hentry).1.right_lt, fun hentry => ?_⟩
      obtain ⟨hcites, hslot⟩ := hg.mem_row_cites.mp hentry
      exact hslot ▸ hg.slot_lt hcites
  | citedBy =>
      refine ⟨fun hentry => (hg.mem_row_citedBy.mp hentry).1.left_lt, fun hentry => ?_⟩
      obtain ⟨hcites, hslot⟩ := hg.mem_row_citedBy.mp hentry
      exact hslot ▸ hg.slot_lt hcites

theorem earliest_lt : earliest < g.size := hg.size_pos

theorem latest_lt : g.latest < g.size := Nat.sub_lt hg.size_pos Nat.one_pos

/-! ### Sweeps -/

/-- A sweep of a network is swept to its end. -/
theorem sweep_swept (way : Way) (hroot : root < g.size) : (g.sweep way root).queue = [] ∧
    ∃ taken crossed, (g.sweep way root).Swept (g.adjacency way) g.size g.linkCount root taken
      crossed :=
  Sweep.run_start (hg.fits way) hroot

theorem sweep_distance_least (way : Way) (hroot : root < g.size) :
    (g.sweep way root).distance.Least fun v => {n | Chain (g.adjacency way).Leads root n v} := by
  obtain ⟨hqueue, taken, crossed, h⟩ := hg.sweep_swept way hroot
  exact h.distance_least hqueue

theorem sweep_crossing_least (way : Way) (hroot : root < g.size) :
    (g.sweep way root).crossing.Least fun slot =>
      {n | ∃ u m entry, Chain (g.adjacency way).Leads root m u ∧
        entry ∈ (g.adjacency way).row u ∧ entry.2 = slot ∧ n = m + 1} := by
  obtain ⟨hqueue, taken, crossed, h⟩ := hg.sweep_swept way hroot
  exact h.crossing_least hqueue

theorem sweep_distance_lt (way : Way) (hroot : root < g.size) {n : Nat}
    (h : (g.sweep way root).distance.at? i = some n) : n < g.size := by
  obtain ⟨hqueue, taken, crossed, hswept⟩ := hg.sweep_swept way hroot
  exact hswept.distance_lt hqueue h

theorem size_sweep_distance (way : Way) (hroot : root < g.size) :
    (g.sweep way root).distance.size = g.size := by
  obtain ⟨-, taken, crossed, h⟩ := hg.sweep_swept way hroot
  obtain ⟨depth, hfrontier⟩ := h.frontier
  exact hfrontier.size_distance

/-! ### Opinions -/

theorem backward_least : g.distances.backward.Least fun i => {n | Chain g.Cites g.latest n i} := by
  have hsweep := hg.sweep_distance_least .cites hg.latest_lt
  rwa [adjacency, hg.leads_cites] at hsweep

theorem forward_least : g.distances.forward.Least fun i => {n | Chain g.Cites i n earliest} := by
  have hsweep := hg.sweep_distance_least .citedBy hg.earliest_lt
  rw [adjacency, hg.leads_citedBy] at hsweep
  exact hsweep.congr fun i => Set.ext fun n => Chain.swap_iff

/-! ### Links -/

theorem linkBackward_least : g.distances.linkBackward.Least fun slot =>
    {n | ∃ i j m, g.Cites i j ∧ slot = g.citing.slot i j ∧ Chain g.Cites g.latest m i ∧
      n = m + 1} := by
  have hsweep := hg.sweep_crossing_least .cites hg.latest_lt
  rw [adjacency, hg.leads_cites] at hsweep
  refine hsweep.congr fun slot => Set.ext fun n => ?_
  constructor
  · intro hn
    obtain ⟨i, m, ⟨j, slot⟩, hchain, hentry, rfl, rfl⟩ := hn
    obtain ⟨hcites, hslot⟩ := hg.mem_row_cites.mp hentry
    exact ⟨i, j, m, hcites, hslot, hchain, rfl⟩
  · intro hn
    obtain ⟨i, j, m, hcites, rfl, hchain, rfl⟩ := hn
    exact ⟨i, m, _, hchain, hg.mem_row_cites.mpr ⟨hcites, rfl⟩, rfl, rfl⟩

theorem linkForward_least : g.distances.linkForward.Least fun slot =>
    {n | ∃ i j m, g.Cites i j ∧ slot = g.citing.slot i j ∧ Chain g.Cites j m earliest ∧
      n = m + 1} := by
  have hsweep := hg.sweep_crossing_least .citedBy hg.earliest_lt
  rw [adjacency, hg.leads_citedBy] at hsweep
  refine hsweep.congr fun slot => Set.ext fun n => ?_
  constructor
  · intro hn
    obtain ⟨j, m, ⟨i, slot⟩, hchain, hentry, rfl, rfl⟩ := hn
    obtain ⟨hcites, hslot⟩ := hg.mem_row_citedBy.mp hentry
    exact ⟨i, j, m, hcites, hslot, Chain.swap_iff.mp hchain, rfl⟩
  · intro hn
    obtain ⟨i, j, m, hcites, rfl, hchain, rfl⟩ := hn
    exact ⟨j, m, _, Chain.swap_iff.mpr hchain, hg.mem_row_citedBy.mpr ⟨hcites, rfl⟩, rfl, rfl⟩

end Drawn

/-- The distances of a network are the lengths of shortest citation chains. -/
structure HasShortestDistances (g : Network) (d : Distances) : Prop where
  size_backward : d.backward.size = g.size
  size_forward : d.forward.size = g.size
  /-- The backward distance is that of a shortest chain from the latest opinion. -/
  backward_eq_some : ∀ i n,
    d.backward.at? i = some n ↔ IsLeast {n | Chain g.Cites g.latest n i} n
  backward_eq_none : ∀ i, d.backward.at? i = none ↔ ∀ n, ¬ Chain g.Cites g.latest n i
  /-- The forward distance is that of a shortest chain to the earliest opinion. -/
  forward_eq_some : ∀ i n,
    d.forward.at? i = some n ↔ IsLeast {n | Chain g.Cites i n earliest} n
  forward_eq_none : ∀ i, d.forward.at? i = none ↔ ∀ n, ¬ Chain g.Cites i n earliest
  /-- A distance is less than the number of opinions, so it fits wherever their indices do. -/
  backward_lt : ∀ i n, d.backward.at? i = some n → n < g.size
  forward_lt : ∀ i n, d.forward.at? i = some n → n < g.size

/-- **Distances are exact**, for every list of records that is accepted. -/
theorem ofRecords_distances {records : List OpinionRecord} {g : Network}
    (h : ofRecords records = .ok g) : g.HasShortestDistances g.distances := by
  obtain ⟨-, hg⟩ := ofRecords_drawn h
  refine
    { size_backward := hg.size_sweep_distance .cites hg.latest_lt
      size_forward := hg.size_sweep_distance .citedBy hg.earliest_lt
      backward_eq_some := hg.backward_least
      backward_eq_none := ?_
      forward_eq_some := hg.forward_least
      forward_eq_none := ?_
      backward_lt := fun _ _ => hg.sweep_distance_lt .cites hg.latest_lt
      forward_lt := fun _ _ => hg.sweep_distance_lt .citedBy hg.earliest_lt }
  · intro i
    rw [hg.backward_least.eq_none_iff, Set.eq_empty_iff_forall_notMem]
    rfl
  · intro i
    rw [hg.forward_least.eq_none_iff, Set.eq_empty_iff_forall_notMem]
    rfl

theorem fiveRecords_distances : ∃ g, ofRecords fiveRecords = .ok g ∧
    g.distances.backward = #[some 3, some 2, some 2, some 1, some 0] ∧
    g.HasShortestDistances g.distances := by
  obtain ⟨g, hok, hbackward⟩ := exists_ok_of_map_toOption (x := ofRecords fiveRecords)
    (f := fun g => g.distances.backward) (b := #[some 3, some 2, some 2, some 1, some 0]) (by cbv)
  exact ⟨g, hok, hbackward, ofRecords_distances hok⟩

end Network

end Precedent
