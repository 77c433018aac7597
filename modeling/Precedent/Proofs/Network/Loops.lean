import Precedent.Network.Loop
import Precedent.Proofs.Network.Distances

/-!
# Precedent.Proofs.Network.Loops

**The loops that are reported are the classes of opinions that reach each other.** To be in one loop
is an equivalence, so the loop of an opinion is its class, and two loops with a common member are
one. Each class is listed once, at its earliest member. Since different loops have different lists
of identifiers, sorting these lists puts them into strictly increasing order.
-/

namespace Precedent

namespace Network

/-! ### Reaching each other -/

/-- One opinion reaches another one along citations, in any number of steps. -/
def Reaches (g : Network) (i j : Nat) : Prop := ∃ n, Chain g.Cites i n j

theorem Reaches.refl (g : Network) (i : Nat) : g.Reaches i i := ⟨0, .nil⟩

theorem Reaches.trans {g : Network} {i j k : Nat} (h : g.Reaches i j) (h' : g.Reaches j k) :
    g.Reaches i k := by
  obtain ⟨m, hm⟩ := h
  obtain ⟨n, hn⟩ := h'
  exact ⟨m + n, hm.trans hn⟩

theorem Reaches.of_cites {g : Network} {i j : Nat} (h : g.Cites i j) : g.Reaches i j :=
  ⟨1, Chain.nil.snoc h⟩

/-- Two opinions that reach each other. -/
def InOneLoop (g : Network) (i j : Nat) : Prop := g.Reaches i j ∧ g.Reaches j i

namespace InOneLoop

variable {g : Network} {i j k : Nat}

theorem refl (g : Network) (i : Nat) : g.InOneLoop i i := ⟨.refl g i, .refl g i⟩

theorem symm (h : g.InOneLoop i j) : g.InOneLoop j i := ⟨h.2, h.1⟩

theorem trans (h : g.InOneLoop i j) (h' : g.InOneLoop j k) : g.InOneLoop i k :=
  ⟨h.1.trans h'.1, h'.2.trans h.2⟩

end InOneLoop

/-- What reaches itself by citations is in one loop with what it cites on the way. -/
theorem exists_inOneLoop_of_chain {g : Network} {i n : Nat} (h : Chain g.Cites i (n + 1) i) :
    ∃ j, g.Cites j i ∧ g.InOneLoop i j := by
  cases h with
  | @snoc _ j _ hchain hcites => exact ⟨j, hcites, ⟨n, hchain⟩, .of_cites hcites⟩

/-- An opinion that reaches another one and is reached from it reaches itself by citations. -/
theorem exists_chain_of_inOneLoop {g : Network} {i j : Nat} (hne : i ≠ j) (h : g.InOneLoop i j) :
    ∃ n, Chain g.Cites i (n + 1) i := by
  obtain ⟨⟨m, hm⟩, n, hn⟩ := h
  cases m with
  | zero => exact absurd hm.eq_of_zero hne
  | succ m =>
      refine ⟨m + n, ?_⟩
      have hround := hm.trans hn
      rwa [Nat.add_right_comm] at hround

namespace Drawn

variable {g : Network} (hg : g.Drawn) {i j : Nat}
include hg

/-- The table says what is reached from where. -/
theorem reaches_reachTable_iff (hi : i < g.size) :
    reaches g.reachTable i j = true ↔ g.Reaches i j := by
  have hrow : g.reachTable[i]? = some (g.sweep .cites i).distance := by
    simp [reachTable, hi]
  have hleast := hg.sweep_distance_least .cites hi
  rw [adjacency, hg.leads_cites] at hleast
  unfold reaches
  rw [hrow]
  dsimp only
  rw [Option.isSome_iff_ne_none, ne_eq, hleast.eq_none_iff, ← ne_eq, ← Set.nonempty_iff_ne_empty]
  rfl

/-! ### The loop of an opinion -/

theorem mem_loopOf_iff (hi : i < g.size) :
    j ∈ g.loopOf g.reachTable i ↔ j < g.size ∧ g.InOneLoop i j := by
  rw [loopOf, List.mem_filter, List.mem_range, Bool.and_eq_true]
  refine and_congr_right fun hj => ?_
  rw [hg.reaches_reachTable_iff hi, hg.reaches_reachTable_iff hj]
  rfl

omit hg in
theorem pairwise_loopOf (g : Network) (table : Array Depths) (i : Nat) :
    (g.loopOf table i).Pairwise (· < ·) := List.pairwise_lt_range.filter _

/-- Opinions in one loop have the same loop. -/
theorem loopOf_congr (hi : i < g.size) (hj : j < g.size) (h : g.InOneLoop i j) :
    g.loopOf g.reachTable i = g.loopOf g.reachTable j := by
  refine List.Pairwise.eq_of_mem_iff (pairwise_loopOf g _ i) (pairwise_loopOf g _ j) fun k => ?_
  rw [hg.mem_loopOf_iff hi, hg.mem_loopOf_iff hj]
  exact and_congr_right fun _ => ⟨h.symm.trans, h.trans⟩

/-! ### All loops -/

omit hg in
/-- A loop is listed at its earliest member, if it has two members. -/
theorem mem_loopIndices_iff {loop : List Nat} : loop ∈ g.loopIndices ↔
    ∃ i < g.size, loop = g.loopOf g.reachTable i ∧ loop.head? = some i ∧ 1 < loop.length := by
  unfold loopIndices
  simp only [List.mem_filterMap, List.mem_map, List.mem_range]
  constructor
  · intro h
    obtain ⟨⟨i, loop'⟩, ⟨i', hi, heq⟩, hcond⟩ := h
    obtain ⟨rfl, rfl⟩ := Prod.mk.inj heq
    dsimp only at hcond
    rw [Option.ite_none_right_eq_some, Bool.and_eq_true, decide_eq_true_eq,
      decide_eq_true_eq] at hcond
    obtain ⟨⟨hhead, hlength⟩, heq⟩ := hcond
    obtain rfl := Option.some.inj heq
    exact ⟨i', hi, rfl, hhead, hlength⟩
  · intro h
    obtain ⟨i, hi, rfl, hhead, hlength⟩ := h
    exact ⟨(i, g.loopOf g.reachTable i), ⟨i, hi, rfl⟩, by simp [hhead, hlength]⟩

omit hg in
theorem pairwise_of_mem_loopIndices {loop : List Nat} (h : loop ∈ g.loopIndices) :
    loop.Pairwise (· < ·) := by
  obtain ⟨i, -, rfl, -⟩ := mem_loopIndices_iff.mp h
  exact pairwise_loopOf g _ i

theorem lt_of_mem_loopIndices {loop : List Nat} (h : loop ∈ g.loopIndices) (hi : i ∈ loop) :
    i < g.size := by
  obtain ⟨k, hk, rfl, -⟩ := mem_loopIndices_iff.mp h
  exact ((hg.mem_loopOf_iff hk).mp hi).1

/-- The members of a loop reach each other. -/
theorem inOneLoop_of_mem_loopIndices {loop : List Nat} (h : loop ∈ g.loopIndices) (hi : i ∈ loop)
    (hj : j ∈ loop) : g.InOneLoop i j := by
  obtain ⟨k, hk, rfl, -⟩ := mem_loopIndices_iff.mp h
  exact ((hg.mem_loopOf_iff hk).mp hi).2.symm.trans ((hg.mem_loopOf_iff hk).mp hj).2

/-- Two loops with a common member are one. -/
theorem eq_of_mem_loopIndices {loop loop' : List Nat} (h : loop ∈ g.loopIndices)
    (h' : loop' ∈ g.loopIndices) (hi : i ∈ loop) (hi' : i ∈ loop') : loop = loop' := by
  obtain ⟨k, hk, rfl, -⟩ := mem_loopIndices_iff.mp h
  obtain ⟨k', hk', rfl, -⟩ := mem_loopIndices_iff.mp h'
  have hkk' := ((hg.mem_loopOf_iff hk).mp hi).2.trans ((hg.mem_loopOf_iff hk').mp hi').2.symm
  exact hg.loopOf_congr hk hk' hkk'

/-- Two opinions that reach each other are in a loop that is listed. -/
theorem exists_mem_loopIndices (hi : i < g.size) (hj : j < g.size) (hne : i ≠ j)
    (h : g.InOneLoop i j) : ∃ loop ∈ g.loopIndices, i ∈ loop ∧ j ∈ loop := by
  have himem := (hg.mem_loopOf_iff hi).mpr ⟨hi, .refl g i⟩
  have hjmem := (hg.mem_loopOf_iff hi).mpr ⟨hj, h⟩
  refine ⟨g.loopOf g.reachTable i, ?_, himem, hjmem⟩
  -- The loop is listed at its first member, which has the same loop.
  cases hloop : g.loopOf g.reachTable i with
  | nil => simp [hloop] at himem
  | cons first rest =>
      have hfirst := (hg.mem_loopOf_iff hi).mp (hloop ▸ List.mem_cons_self .. : first ∈ _)
      have hcongr := hg.loopOf_congr hfirst.1 hi hfirst.2.symm
      refine mem_loopIndices_iff.mpr ⟨first, hfirst.1, by rw [hcongr, hloop], rfl, ?_⟩
      cases rest with
      | nil =>
          rw [hloop, List.mem_singleton] at himem hjmem
          exact absurd (himem.trans hjmem.symm) hne
      | cons second rest => simp

omit hg in
/-- Loops that are listed at different places have different first members. -/
theorem pairwise_loopIndices (g : Network) :
    g.loopIndices.Pairwise fun loop loop' => loop.head? ≠ loop'.head? := by
  unfold loopIndices
  refine List.Pairwise.filterMap (R := fun entry entry' => entry.1 ≠ entry'.1) _ ?_
    (List.pairwise_map.mpr (List.pairwise_lt_range.imp Nat.ne_of_lt))
  intro entry entry' hne loop hloop loop' hloop' heq
  simp only [Option.ite_none_right_eq_some, Option.some.injEq, Bool.and_eq_true,
    decide_eq_true_eq] at hloop hloop'
  obtain ⟨⟨hhead, -⟩, rfl⟩ := hloop
  obtain ⟨⟨hhead', -⟩, rfl⟩ := hloop'
  exact hne (Option.some.inj (hhead.symm.trans (heq.trans hhead')))

omit hg in
theorem nodup_loopIndices (g : Network) : g.loopIndices.Nodup :=
  (pairwise_loopIndices g).imp fun hne heq => hne (congrArg List.head? heq)

omit hg in
/-- A loop that is listed has two members. -/
theorem exists_ne_of_mem_loopIndices {loop : List Nat} (h : loop ∈ g.loopIndices) :
    ∃ i ∈ loop, ∃ j ∈ loop, i ≠ j := by
  have hpairwise := pairwise_of_mem_loopIndices h
  obtain ⟨i, -, -, -, hlength⟩ := mem_loopIndices_iff.mp h
  cases loop with
  | nil => cases hlength
  | cons first rest =>
      cases rest with
      | nil => simp at hlength
      | cons second rest =>
          rw [List.pairwise_cons] at hpairwise
          exact ⟨first, by simp, second, by simp, Nat.ne_of_lt (hpairwise.1 second (by simp))⟩

/-- There is no loop exactly if no opinion reaches itself by citations. -/
theorem loopIndices_eq_nil_iff : g.loopIndices = [] ↔ ∀ i n, ¬ Chain g.Cites i (n + 1) i := by
  rw [List.eq_nil_iff_forall_not_mem]
  constructor
  · intro hnone i n hchain
    obtain ⟨j, hcites, hloop⟩ := exists_inOneLoop_of_chain hchain
    obtain ⟨loop, hmem, -⟩ :=
      hg.exists_mem_loopIndices hcites.right_lt hcites.left_lt hcites.ne.symm hloop
    exact hnone loop hmem
  · intro hnone loop hmem
    obtain ⟨i, hi, j, hj, hne⟩ := exists_ne_of_mem_loopIndices hmem
    obtain ⟨n, hchain⟩ := exists_chain_of_inOneLoop hne (hg.inOneLoop_of_mem_loopIndices hmem hi hj)
    exact hnone i n hchain

/-! ### Loops by identifiers -/

/-- Different opinions have different identifiers. -/
theorem idAt?_inj {a : OpinionId} (hi : g.idAt? i = some a) (hj : g.idAt? j = some a) : i = j := by
  have hilt := lt_of_idAt?_eq_some hi
  have hjlt := lt_of_idAt?_eq_some hj
  rw [idAt?_of_lt hilt] at hi
  rw [idAt?_of_lt hjlt] at hj
  exact Citing.idAt_inj hg.wellPlaced i (g.size_citing ▸ hilt) j (g.size_citing ▸ hjlt)
    (Option.some.inj (hi.trans hj.symm))

/-- Every member of a loop that is listed has its identifier in the list. -/
theorem map_idAt?_of_mem_loopIndices {loop : List Nat} (h : loop ∈ g.loopIndices) :
    loop.map g.idAt? = (loop.filterMap g.idAt?).map some := by
  have hids : ∀ i ∈ loop, g.idAt? i = some (Citing.idAt g.opinions.toList i) := fun i hi =>
    idAt?_of_lt (hg.lt_of_mem_loopIndices h hi)
  rw [List.filterMap_congr hids, List.filterMap_eq_map', List.map_map]
  exact List.map_congr_left hids

/-- Two loops with a common identifier are one. -/
theorem eq_of_mem_filterMap_idAt? {loop loop' : List Nat} (h : loop ∈ g.loopIndices)
    (h' : loop' ∈ g.loopIndices) {a : OpinionId} (ha : a ∈ loop.filterMap g.idAt?)
    (ha' : a ∈ loop'.filterMap g.idAt?) : loop = loop' := by
  obtain ⟨i, hi, hid⟩ := List.mem_filterMap.mp ha
  obtain ⟨i', hi', hid'⟩ := List.mem_filterMap.mp ha'
  obtain rfl := hg.idAt?_inj hid hid'
  exact hg.eq_of_mem_loopIndices h h' hi hi'

/-- Different loops have different identifiers. -/
theorem filterMap_idAt?_inj {loop loop' : List Nat} (h : loop ∈ g.loopIndices)
    (h' : loop' ∈ g.loopIndices) (heq : loop.filterMap g.idAt? = loop'.filterMap g.idAt?) :
    loop = loop' := by
  obtain ⟨i, hi, -⟩ := exists_ne_of_mem_loopIndices h
  have hid := idAt?_of_lt (hg.lt_of_mem_loopIndices h hi)
  have hmem := List.mem_filterMap.mpr ⟨i, hi, hid⟩
  exact hg.eq_of_mem_filterMap_idAt? h h' hmem (heq ▸ hmem)

omit hg in
theorem mem_loops_iff {ids : List OpinionId} :
    ids ∈ g.loops ↔ ∃ loop ∈ g.loopIndices, loop.filterMap g.idAt? = ids := by
  rw [loops, List.mem_mergeSort, List.mem_map]

theorem nodup_loops : g.loops.Nodup := by
  rw [loops, (List.mergeSort_perm ..).nodup_iff]
  exact List.Nodup.map_on (fun _ h _ h' => hg.filterMap_idAt?_inj h h') (nodup_loopIndices g)

/-- Sorted lists, no two of them equal, come in strictly increasing order. -/
theorem pairwise_loops : g.loops.Pairwise fun ids ids' => compare ids ids' = .lt := by
  have hsorted : g.loops.Pairwise fun ids ids' => (compare ids ids').isLE = true :=
    pairwise_mergeSort_compare (fun ids => ids) _
  refine (hsorted.and hg.nodup_loops).imp fun {ids ids'} hboth => ?_
  obtain ⟨hle, hne⟩ := hboth
  rcases Ordering.isLE_iff_eq_lt_or_eq_eq.mp hle with hlt | heq
  · exact hlt
  · exact absurd (Std.LawfulEqCmp.eq_of_compare heq) hne

/-- Two opinions are in one of the loops exactly if they reach each other. -/
theorem exists_mem_loops_iff {a b : OpinionId} (hne : i ≠ j) (hi : g.idAt? i = some a)
    (hj : g.idAt? j = some b) : (∃ ids ∈ g.loops, a ∈ ids ∧ b ∈ ids) ↔ g.InOneLoop i j := by
  constructor
  · intro h
    obtain ⟨ids, hids, ha, hb⟩ := h
    obtain ⟨loop, hmem, rfl⟩ := mem_loops_iff.mp hids
    obtain ⟨i', hi', hid⟩ := List.mem_filterMap.mp ha
    obtain ⟨j', hj', hjd⟩ := List.mem_filterMap.mp hb
    obtain rfl := hg.idAt?_inj hi hid
    obtain rfl := hg.idAt?_inj hj hjd
    exact hg.inOneLoop_of_mem_loopIndices hmem hi' hj'
  · intro h
    obtain ⟨loop, hmem, himem, hjmem⟩ := hg.exists_mem_loopIndices (lt_of_idAt?_eq_some hi)
      (lt_of_idAt?_eq_some hj) hne h
    exact ⟨_, mem_loops_iff.mpr ⟨loop, hmem, rfl⟩, List.mem_filterMap.mpr ⟨i, himem, hi⟩,
      List.mem_filterMap.mpr ⟨j, hjmem, hj⟩⟩

end Drawn

/-- Lists of identifiers that name the loops of a network. -/
structure ReportsLoops (g : Network) (loops : List (List OpinionId)) : Prop where
  /-- A loop has at least two members, in chronological order. -/
  members : ∀ ids ∈ loops, ∃ nodes : List Nat,
    nodes.Pairwise (· < ·) ∧ 2 ≤ nodes.length ∧ nodes.map g.idAt? = ids.map some
  /-- Two opinions are in a common loop exactly if each of them reaches the other. -/
  common_iff : ∀ i j a b, i ≠ j → g.idAt? i = some a → g.idAt? j = some b →
    ((∃ ids ∈ loops, a ∈ ids ∧ b ∈ ids) ↔ g.Reaches i j ∧ g.Reaches j i)
  /-- No opinion is in two loops. -/
  unique : ∀ ids ∈ loops, ∀ ids' ∈ loops, ∀ a, a ∈ ids → a ∈ ids' → ids = ids'
  increasing : loops.Pairwise fun ids ids' => compare ids ids' = .lt
  /-- Without loops, no opinion reaches itself by one or more citations. -/
  eq_nil_iff : loops = [] ↔ ∀ i n, ¬ Chain g.Cites i (n + 1) i

/-- **The loops are reported exactly**, for every list of records that is accepted. -/
theorem ofRecords_reportsLoops {records : List OpinionRecord} {g : Network}
    (h : ofRecords records = .ok g) : g.ReportsLoops g.loops := by
  obtain ⟨-, hg⟩ := ofRecords_drawn h
  refine
    { members := ?_
      common_iff := fun _ _ _ _ hne hi hj => hg.exists_mem_loops_iff hne hi hj
      unique := ?_
      increasing := hg.pairwise_loops
      eq_nil_iff := ?_ }
  · intro ids hids
    obtain ⟨loop, hmem, rfl⟩ := Drawn.mem_loops_iff.mp hids
    obtain ⟨-, -, -, -, hlength⟩ := Drawn.mem_loopIndices_iff.mp hmem
    exact ⟨loop, Drawn.pairwise_of_mem_loopIndices hmem, hlength,
      hg.map_idAt?_of_mem_loopIndices hmem⟩
  · intro ids hids ids' hids' a ha ha'
    obtain ⟨loop, hmem, rfl⟩ := Drawn.mem_loops_iff.mp hids
    obtain ⟨loop', hmem', rfl⟩ := Drawn.mem_loops_iff.mp hids'
    rw [hg.eq_of_mem_filterMap_idAt? hmem hmem' ha ha']
  · rw [← hg.loopIndices_eq_nil_iff, ← List.length_eq_zero_iff, loops, List.length_mergeSort,
      List.length_map, List.length_eq_zero_iff]

theorem fiveRecords_reportsLoops : ∃ g, ofRecords fiveRecords = .ok g ∧
    g.loops = [[.number 2, .number 3, .number 4]] ∧ g.ReportsLoops g.loops := by
  obtain ⟨g, hok, hloops⟩ := exists_ok_of_map_toOption (x := ofRecords fiveRecords)
    (f := fun g => g.loops) (b := [[.number 2, .number 3, .number 4]]) (by cbv)
  exact ⟨g, hok, hloops, ofRecords_reportsLoops hok⟩

end Network

end Precedent
