import Mathlib.Algebra.BigOperators.Group.Finset.Basic
import Precedent.Proofs.Network.Rows

/-!
# Precedent.Proofs.Network.Transpose

**Turning neighbour lists around loses and moves nothing.** The reverse row of a node holds the
nodes that have it as a neighbour, in their order and with the slots of their links. The rows are
filled in one pass over all entries. While that pass is under way, the cursor of every row stands
right behind the entries that have been carried there, and those are the row of the entries seen so
far (`Filled`). So no cursor goes past the last entry (`cursor_le_size`).
-/

namespace Precedent.Adjacency

/-- All entries, each with the node it belongs to. -/
def entries (a : Adjacency) (nodes : Nat) : List (Nat × Nat × Nat) :=
  (List.range nodes).flatMap fun node => (a.row node).map fun entry => (node, entry)

/-- The reverse row of a node: whose neighbour it is, by entries in order. -/
def reverseRow (entries : List (Nat × Nat × Nat)) (node : Nat) : List (Nat × Nat) :=
  entries.filterMap fun e => if e.2.1 = node then some (e.1, e.2.2) else none

/-- The reverse rows of all nodes. -/
def reverseRows (entries : List (Nat × Nat × Nat)) (nodes : Nat) : List (List (Nat × Nat)) :=
  (List.range nodes).map (reverseRow entries)

variable {nodes : Nat} {seen rest : List (Nat × Nat × Nat)}

@[simp] theorem length_reverseRows (entries : List (Nat × Nat × Nat)) (nodes : Nat) :
    (reverseRows entries nodes).length = nodes := by
  rw [reverseRows, List.length_map, List.length_range]

@[simp] theorem getElem_reverseRows {entries : List (Nat × Nat × Nat)} {node : Nat}
    (h : node < (reverseRows entries nodes).length) :
    (reverseRows entries nodes)[node] = reverseRow entries node := by
  simp only [reverseRows, List.getElem_map, List.getElem_range]

theorem reverseRow_append (seen rest : List (Nat × Nat × Nat)) (node : Nat) :
    reverseRow (seen ++ rest) node = reverseRow seen node ++ reverseRow rest node :=
  List.filterMap_append

theorem reverseRow_flatMap {α : Type} (l : List α) (f : α → List (Nat × Nat × Nat)) (node : Nat) :
    reverseRow (l.flatMap f) node = l.flatMap fun x => reverseRow (f x) node :=
  List.filterMap_flatMap

theorem reverseRow_self (source slot node : Nat) :
    reverseRow [(source, node, slot)] node = [(source, slot)] := by simp [reverseRow]

theorem reverseRow_ne {source slot target node : Nat} (h : target ≠ node) :
    reverseRow [(source, target, slot)] node = [] := by simp [reverseRow, h]

theorem length_reverseRow (entries : List (Nat × Nat × Nat)) (node : Nat) :
    (reverseRow entries node).length = (entries.map fun e => e.2.1).count node := by
  induction entries with
  | nil => rfl
  | cons e rest ih =>
      obtain ⟨source, target, slot⟩ := e
      rw [← List.singleton_append, reverseRow_append, List.length_append, ih, List.map_append,
        List.count_append]
      by_cases h : target = node
      · subst h
        simp [reverseRow_self]
      · simp [reverseRow_ne h, h]

/-! ### Counting -/

theorem getElem?_foldl_modify (targets : List Nat) (counts : Array Nat) (node : Nat) :
    (targets.foldl (fun counts target => counts.modify target (· + 1)) counts)[node]? =
      counts[node]?.map (· + targets.count node) := by
  induction targets generalizing counts with
  | nil => simp
  | cons target rest ih =>
      rw [List.foldl_cons, ih, Array.getElem?_modify, List.count_cons]
      by_cases h : target = node
      · subst h
        simp [Function.comp_def, Nat.add_comm, Nat.add_left_comm]
      · simp [h]

/-- The counts are the lengths of the reverse rows. -/
theorem toList_counts {a : Adjacency}
    (h : a.targets.toList = (a.entries nodes).map fun e => e.2.1) :
    (a.counts nodes).toList = (reverseRows (a.entries nodes) nodes).map List.length := by
  apply List.ext_getElem?
  intro node
  rw [Array.getElem?_toList, counts, ← Array.foldl_toList, getElem?_foldl_modify, h, reverseRows,
    List.map_map]
  by_cases hnode : node < nodes
  · simp [hnode, length_reverseRow]
  · simp [hnode]

/-! ### Carrying -/

/-- An array holds one field of the entries that have been seen: those of a reverse row stand from
the start of the row on. `rows` are the reverse rows in the end. -/
structure Holds (rows : List (List (Nat × Nat))) (seen : List (Nat × Nat × Nat))
    (field : Nat × Nat → Nat) (array : Array Nat) : Prop where
  size : array.size = rows.flatten.length
  entry : ∀ node < rows.length, ∀ k e, (reverseRow seen node)[k]? = some e →
    array[rowStart rows node + k]? = some (field e)

/-- The entries that have been seen stand in their reverse rows, and each cursor behind them. -/
structure Transposition.Filled (rows : List (List (Nat × Nat))) (seen : List (Nat × Nat × Nat))
    (t : Transposition) : Prop where
  cursor : ∀ node < rows.length,
    t.cursor[node]? = some (rowStart rows node + (reverseRow seen node).length)
  targets : Holds rows seen Prod.fst t.targets
  slots : Holds rows seen Prod.snd t.slots

section Step

variable {source target slot : Nat}

/-- There is room for an entry that has not been seen yet. -/
theorem length_reverseRow_lt (seen rest : List (Nat × Nat × Nat)) (source target slot : Nat) :
    (reverseRow seen target).length <
      (reverseRow (seen ++ (source, target, slot) :: rest) target).length := by
  rw [← List.singleton_append, reverseRow_append, reverseRow_append, reverseRow_self]
  simp

theorem length_reverseRow_le (seen rest : List (Nat × Nat × Nat)) (node : Nat) :
    (reverseRow seen node).length ≤ (reverseRow (seen ++ rest) node).length := by
  rw [reverseRow_append, List.length_append]
  exact Nat.le_add_right _ _

/-- The place at the cursor of a row holds none of the entries that have been seen. -/
theorem cursor_ne_place {rows : List (List (Nat × Nat))} {node k : Nat}
    (hrows : rows = reverseRows (seen ++ (source, target, slot) :: rest) nodes)
    (htarget : target < nodes) (hnode : node < nodes) (hk : k < (reverseRow seen node).length) :
    rowStart rows target + (reverseRow seen target).length ≠ rowStart rows node + k := by
  subst hrows
  have hroom := length_reverseRow_lt seen rest source target slot
  have hseen := length_reverseRow_le seen ((source, target, slot) :: rest) node
  rcases Nat.lt_trichotomy target node with hlt | rfl | hgt
  · exact Nat.ne_of_lt (rowStart_add_lt (by simpa) (by simpa) hlt)
  · omega
  · exact Nat.ne_of_gt (rowStart_add_lt (by simpa) (by simp; omega) hgt)

/-- Writing one more entry at the cursor of its row. -/
theorem Holds.set {rows : List (List (Nat × Nat))} {field : Nat × Nat → Nat} {array : Array Nat}
    (hrows : rows = reverseRows (seen ++ (source, target, slot) :: rest) nodes)
    (hholds : Holds rows seen field array) (htarget : target < nodes) :
    Holds rows (seen ++ [(source, target, slot)]) field
      (array.setIfInBounds (rowStart rows target + (reverseRow seen target).length)
        (field (source, slot))) := by
  have hlength : rows.length = nodes := hrows ▸ length_reverseRows _ _
  refine ⟨by rw [Array.size_setIfInBounds, hholds.size], fun node hnode k e he => ?_⟩
  rw [reverseRow_append] at he
  by_cases hk : k < (reverseRow seen node).length
  · -- The entry has been there before.
    rw [List.getElem?_append_left hk] at he
    rw [Array.getElem?_setIfInBounds_ne
      (cursor_ne_place hrows htarget (hlength ▸ hnode) hk)]
    exact hholds.entry node hnode k e he
  · -- The entry is the one that is written.
    rw [List.getElem?_append_right (by omega)] at he
    by_cases h : target = node
    · subst h
      rw [reverseRow_self, List.getElem?_singleton, Option.ite_none_right_eq_some] at he
      obtain ⟨hk', he⟩ := he
      obtain rfl : k = (reverseRow seen target).length := by omega
      obtain rfl := Option.some.inj he
      refine Array.getElem?_setIfInBounds_self_of_lt ?_
      rw [hholds.size, ← rowStart_of_le (Nat.le_refl _)]
      subst hrows
      exact rowStart_add_lt (m := 0) hnode (by simpa using length_reverseRow_lt seen rest ..) hnode
    · rw [reverseRow_ne h] at he
      simp at he

/-- Carrying one more entry to its place. -/
theorem Transposition.Filled.carry {rows : List (List (Nat × Nat))} {t : Transposition}
    (hrows : rows = reverseRows (seen ++ (source, target, slot) :: rest) nodes)
    (hfilled : Filled rows seen t) (htarget : target < nodes) :
    Filled rows (seen ++ [(source, target, slot)]) (t.carry source (target, slot)) := by
  have hlength : rows.length = nodes := hrows ▸ length_reverseRows _ _
  have hplace := hfilled.cursor target (hlength ▸ htarget)
  refine ⟨fun node hnode => ?_, ?_, ?_⟩
  · rw [Transposition.carry, Array.getElem?_modify, hfilled.cursor node hnode, reverseRow_append,
      List.length_append]
    by_cases h : target = node
    · subst h
      simp [reverseRow_self, Nat.add_assoc]
    · simp [reverseRow_ne h, h]
  · rw [Transposition.carry, hplace, Option.getD_some]
    exact hfilled.targets.set hrows htarget
  · rw [Transposition.carry, hplace, Option.getD_some]
    exact hfilled.slots.set hrows htarget

end Step

/-- Carrying more of the entries that have not been seen yet. -/
theorem Transposition.Filled.foldl {rows : List (List (Nat × Nat))}
    {next : List (Nat × Nat × Nat)} {t : Transposition}
    (hrows : rows = reverseRows (seen ++ (next ++ rest)) nodes) (hfilled : Filled rows seen t)
    (hnext : ∀ e ∈ next, e.2.1 < nodes) :
    Filled rows (seen ++ next) (next.foldl (fun t e => t.carry e.1 e.2) t) := by
  induction next generalizing seen t with
  | nil => simpa using hfilled
  | cons e next ih =>
      obtain ⟨source, target, slot⟩ := e
      -- One entry moves over to those that have been seen, and the invariant goes with it.
      have hstep := hfilled.carry hrows (hnext _ (List.mem_cons_self ..))
      rw [List.foldl_cons, List.append_cons]
      exact ih (by rw [hrows, List.cons_append, List.append_cons]) hstep
        fun e he => hnext e (List.mem_cons_of_mem _ he)

/-- When all entries have been seen, the array is full. -/
theorem Holds.toList {rows : List (List (Nat × Nat))} {entries : List (Nat × Nat × Nat)}
    {field : Nat × Nat → Nat} {array : Array Nat} (hrows : rows = reverseRows entries nodes)
    (hholds : Holds rows entries field array) : array.toList = rows.flatten.map field := by
  apply List.ext_getElem?
  intro p
  by_cases hp : p < rows.flatten.length
  · obtain ⟨node, hnode, k, hk, rfl⟩ := exists_rowStart_add hp
    have hrow : rows[node] = reverseRow entries node := by
      subst hrows
      exact getElem_reverseRows hnode
    have hget : (reverseRow entries node)[k]? = some rows[node][k] := by
      rw [← hrow]
      exact List.getElem?_eq_getElem hk
    rw [Array.getElem?_toList, hholds.entry node hnode k _ hget, List.getElem?_map,
      getElem?_flatten hnode hk, Option.map_some]
  · rw [List.getElem?_eq_none (by rw [Array.length_toList, hholds.size]; omega),
      List.getElem?_eq_none (by rw [List.length_map]; omega)]

/-! ### The reverse lists -/

/-- Every entry is in one reverse row. -/
theorem length_flatten_reverseRows {entries : List (Nat × Nat × Nat)}
    (hbound : ∀ e ∈ entries, e.2.1 < nodes) :
    (reverseRows entries nodes).flatten.length = entries.length := by
  have hcount : ∀ target ∈ ((entries.map fun e => e.2.1 : List Nat) : Multiset Nat),
      target ∈ Finset.range nodes := by
    intro target htarget
    obtain ⟨e, he, rfl⟩ := List.mem_map.mp htarget
    exact Finset.mem_range.mpr (hbound e he)
  -- The length of a reverse row counts the entries that name its node, and every entry names one.
  calc (reverseRows entries nodes).flatten.length
      = ((List.range nodes).map fun node => (entries.map fun e => e.2.1).count node).sum := by
        simp only [List.length_flatten, reverseRows, List.map_map, Function.comp_def,
          length_reverseRow]
    _ = ∑ node ∈ Finset.range nodes,
          ((entries.map fun e => e.2.1 : List Nat) : Multiset Nat).count node := by
        rw [Finset.sum_eq_multiset_sum, Finset.range_val, Multiset.range, Multiset.map_coe,
          Multiset.sum_coe]
        simp only [Multiset.coe_count]
    _ = entries.length := by
        rw [Multiset.sum_count_eq_card hcount, Multiset.coe_card, List.length_map]

/-- Nothing has been carried: every cursor stands at the start of its row. -/
def Transposition.start (a : Adjacency) (nodes : Nat) : Transposition where
  cursor := ((runningTotals 0 (a.counts nodes).toList).take nodes).toArray
  targets := Array.replicate a.size 0
  slots := Array.replicate a.size 0

/-- What has been carried when some of the entries have been seen. -/
def Transposition.after (a : Adjacency) (nodes : Nat) (seen : List (Nat × Nat × Nat)) :
    Transposition :=
  seen.foldl (fun t e => t.carry e.1 e.2) (start a nodes)

section Targets

variable {a : Adjacency} (htargets : a.targets.toList = (a.entries nodes).map fun e => e.2.1)
  (hbound : ∀ e ∈ a.entries nodes, e.2.1 < nodes)
include htargets hbound

theorem size_eq_length_reverseRows :
    a.size = (reverseRows (a.entries nodes) nodes).flatten.length := by
  rw [length_flatten_reverseRows hbound, size, ← Array.length_toList, htargets, List.length_map]

/-- Whichever entries come first, when they have been carried they stand in their reverse rows. -/
theorem Transposition.filled_after (hsplit : a.entries nodes = seen ++ rest) :
    Filled (reverseRows (a.entries nodes) nodes) seen (after a nodes seen) := by
  have hsize := size_eq_length_reverseRows htargets hbound
  have hstart : Filled (reverseRows (a.entries nodes) nodes) [] (.start a nodes) := by
    refine ⟨fun node hnode => ?_, ⟨?_, fun _ _ _ _ he => ?_⟩, ⟨?_, fun _ _ _ _ he => ?_⟩⟩
    · rw [length_reverseRows] at hnode
      rw [start, toList_counts htargets, List.getElem?_toArray, List.getElem?_take_of_lt hnode,
        getElem?_runningTotals 0 (by simpa using Nat.le_of_lt hnode), Nat.zero_add]
      rfl
    · rw [start, Array.size_replicate, hsize]
    · exact absurd he (by simp [reverseRow])
    · rw [start, Array.size_replicate, hsize]
    · exact absurd he (by simp [reverseRow])
  exact hstart.foldl (congrArg (reverseRows · nodes) hsplit) fun e he =>
    hbound e (hsplit ▸ List.mem_append_left _ he)

/-- The reverse lists hold the reverse rows. -/
theorem transpose_eq : a.transpose nodes = ofRows (reverseRows (a.entries nodes) nodes) := by
  -- All entries are carried.
  have hfilled := Transposition.filled_after htargets hbound (List.append_nil _).symm
  have htargets' := hfilled.targets.toList rfl
  have hslots := hfilled.slots.toList rfl
  simp only [Transposition.after, entries, List.foldl_flatMap, List.foldl_map] at htargets' hslots
  rw [transpose, ofRows, ← toList_counts htargets, entries, ← htargets', ← hslots]
  rfl

/-! ### The numbers on the way -/

/-- No node is counted more often than there are entries. -/
theorem le_size_of_mem_counts {n : Nat} (h : n ∈ a.counts nodes) : n ≤ a.size := by
  rw [← Array.mem_toList_iff, toList_counts htargets, List.mem_map] at h
  obtain ⟨row, hrow, rfl⟩ := h
  rw [size_eq_length_reverseRows htargets hbound]
  exact (List.sublist_flatten_of_mem hrow).length_le

/-- Whichever entries have been carried, the cursor of a row has not gone past the last entry. -/
theorem cursor_le_size (hsplit : a.entries nodes = seen ++ rest) {node : Nat}
    (hnode : node < nodes) :
    ∃ place, (Transposition.after a nodes seen).cursor[node]? = some place ∧ place ≤ a.size := by
  have hlt : node < (reverseRows (a.entries nodes) nodes).length := by simpa using hnode
  have hfilled := Transposition.filled_after htargets hbound hsplit
  refine ⟨_, hfilled.cursor node hlt, ?_⟩
  calc rowStart (reverseRows (a.entries nodes) nodes) node + (reverseRow seen node).length
      ≤ rowStart (reverseRows (a.entries nodes) nodes) (node + 1) := by
        rw [rowStart_succ hlt, getElem_reverseRows, hsplit]
        exact Nat.add_le_add_left (length_reverseRow_le seen rest node) _
    _ ≤ rowStart (reverseRows (a.entries nodes) nodes) nodes := rowStart_mono hnode
    _ = a.size := by
        rw [size_eq_length_reverseRows htargets hbound, rowStart_of_le (by simp)]

end Targets

/-! ### Stored rows -/

/-- The entries of rows that are stored in order. -/
theorem entries_ofRows (rowOf : Nat → List (Nat × Nat)) :
    (ofRows ((List.range nodes).map rowOf)).entries nodes =
      (List.range nodes).flatMap fun node => (rowOf node).map fun entry => (node, entry) := by
  refine List.flatMap_congr fun node hnode => ?_
  rw [row_ofRows (by simpa using hnode), List.getElem_map, List.getElem_range]

theorem targets_ofRows (rowOf : Nat → List (Nat × Nat)) :
    (ofRows ((List.range nodes).map rowOf)).targets.toList =
      ((ofRows ((List.range nodes).map rowOf)).entries nodes).map fun e => e.2.1 := by
  rw [entries_ofRows, ofRows]
  simp only [List.map_map, Function.comp_def, List.flatMap_def, List.map_flatten]

section Bound

variable {rowOf : Nat → List (Nat × Nat)}
  (hbound : ∀ node < nodes, ∀ entry ∈ rowOf node, entry.1 < nodes)
include hbound

theorem lt_of_mem_entries_ofRows :
    ∀ e ∈ (ofRows ((List.range nodes).map rowOf)).entries nodes, e.2.1 < nodes := by
  intro e he
  rw [entries_ofRows] at he
  obtain ⟨node, hnode, he⟩ := List.mem_flatMap.mp he
  obtain ⟨entry, hentry, rfl⟩ := List.mem_map.mp he
  exact hbound node (List.mem_range.mp hnode) entry hentry

/-- Turning stored rows around: the reverse row of a node takes, from each row in order, the entries
that name the node. -/
theorem transpose_ofRows :
    (ofRows ((List.range nodes).map rowOf)).transpose nodes =
      ofRows ((List.range nodes).map fun target => (List.range nodes).flatMap fun node =>
        reverseRow ((rowOf node).map fun entry => (node, entry)) target) := by
  rw [transpose_eq (targets_ofRows rowOf) (lt_of_mem_entries_ofRows hbound), entries_ofRows]
  exact congrArg ofRows (List.map_congr_left fun target _ => reverseRow_flatMap _ _ target)

/-- Turning stored rows around keeps the number of entries. -/
theorem size_transpose_ofRows :
    ((ofRows ((List.range nodes).map rowOf)).transpose nodes).size =
      (ofRows ((List.range nodes).map rowOf)).size := by
  have htargets := @targets_ofRows nodes rowOf
  have hlt := lt_of_mem_entries_ofRows hbound
  rw [transpose_eq htargets hlt, size_ofRows, length_flatten_reverseRows hlt, size,
    ← Array.length_toList, htargets, List.length_map]

end Bound

end Precedent.Adjacency
