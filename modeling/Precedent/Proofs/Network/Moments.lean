import Mathlib.Data.Set.Card
import Mathlib.Logic.Function.Iterate
import Precedent.Proofs.Network.Loops

/-!
# Precedent.Proofs.Network.Moments

**Every opinion that a sweep reaches is put in the queue once.** Between two rounds a sweep says
little about what happens in between, so it is taken apart into its moments here: at each of them a
node is taken from the queue, or one entry of the row in hand is crossed. `Underway` holds at every
moment. A move changes the distance of a node only when the node is put in the queue (`Moves`), and
what has a distance keeps it; so a node enters the queue at the first moment at which it has been
reached, and at no other.

Each round takes one node, and no node is taken twice. The queue is therefore empty after as many
rounds as there are nodes to be reached, and not before.
-/

namespace Precedent

namespace Sweep

/-- A moment in a sweep. -/
structure Moment where
  sweep : Sweep
  /-- What is still to be crossed of the row in hand. -/
  row : List (Nat × Nat)
  /-- The depth at which it is crossed. -/
  depth : Nat

namespace Moment

/-- The next move: cross an entry of the row in hand, or take the next node if there is none. -/
def next (a : Adjacency) (m : Moment) : Moment :=
  match m.row with
  | entry :: row => { m with sweep := m.sweep.cross m.depth entry, row }
  | [] =>
    match m.sweep.queue with
    | [] => m
    | node :: rest =>
      let sweep := { m.sweep with queue := rest }
      match m.sweep.distance.at? node with
      | some depth => ⟨sweep, a.row node, depth + 1⟩
      | none => ⟨sweep, [], 0⟩

/-- The moments of a sweep, the start first. -/
def of (a : Adjacency) (nodes links root : Nat) (k : Nat) : Moment :=
  (next a)^[k] ⟨.start nodes links root, [], 0⟩

/-- What is in the queue just before a moment; the start is the first to put anything in. -/
def queueBefore (moments : Nat → Moment) : Nat → List Nat
  | 0 => []
  | k + 1 => (moments k).sweep.queue

/-- A node is put in the queue at a moment. -/
def Enters (moments : Nat → Moment) (v k : Nat) : Prop :=
  (queueBefore moments k).count v < (moments k).sweep.queue.count v

variable {a : Adjacency} {nodes links root : Nat} {m : Moment}

/-! ### Rounds -/

/-- The row in hand is crossed entry by entry. -/
theorem iterate_next_row (m : Moment) : (next a)^[m.row.length] m =
    ⟨m.row.foldl (Sweep.cross m.depth) m.sweep, [], m.depth⟩ := by
  obtain ⟨s, row, depth⟩ := m
  dsimp only
  induction row generalizing s with
  | nil => rfl
  | cons entry row ih =>
      rw [List.length_cons, Function.iterate_succ_apply]
      exact ih (s.cross depth entry)

/-- After some moves a round is over. -/
theorem exists_round (hrow : m.row = []) : ∃ k,
    ((next a)^[k] m).row = [] ∧ ((next a)^[k] m).sweep = m.sweep.round a := by
  unfold Sweep.round
  cases hqueue : m.sweep.queue with
  | nil => exact ⟨0, hrow, rfl⟩
  | cons node rest =>
      dsimp only
      cases hat : m.sweep.distance.at? node with
      | none =>
          have hnext : next a m = ⟨{ m.sweep with queue := rest }, [], 0⟩ := by
            simp only [next, hrow, hqueue, hat]
          exact ⟨1, congrArg row hnext, congrArg sweep hnext⟩
      | some depth =>
          have hnext : next a m = ⟨{ m.sweep with queue := rest }, a.row node, depth + 1⟩ := by
            simp only [next, hrow, hqueue, hat]
          have hcrossed := iterate_next_row (a := a) (next a m)
          rw [← Function.iterate_succ_apply, hnext] at hcrossed
          exact ⟨_, congrArg row hcrossed, congrArg sweep hcrossed⟩

/-- The state after any number of rounds is that of a moment. -/
theorem exists_run (hrow : m.row = []) (rounds : Nat) : ∃ k,
    ((next a)^[k] m).row = [] ∧ ((next a)^[k] m).sweep = m.sweep.run a rounds := by
  induction rounds generalizing m with
  | zero => exact ⟨0, hrow, rfl⟩
  | succ rounds ih =>
      obtain ⟨k, hrow', hround⟩ := exists_round (a := a) hrow
      obtain ⟨k', hrow'', hrun⟩ := ih hrow'
      rw [← Function.iterate_add_apply] at hrow'' hrun
      exact ⟨k' + k, hrow'', by rw [hrun, hround, Sweep.run]⟩

/-! ### Moves -/

/-- What holds at a moment when some nodes have been taken from the queue. -/
structure Underway (a : Adjacency) (nodes root : Nat) (taken : List Nat) (m : Moment) : Prop where
  /-- What is left of a row belongs to a node, and is crossed one deeper than that. -/
  frontier : ∃ depth node, m.sweep.Frontier a nodes root taken depth ∧
    m.sweep.distance.at? node = some depth ∧
    ∀ entry ∈ m.row, entry ∈ a.row node ∧ m.depth = depth + 1

/-- What can happen from one moment to the next. -/
inductive Moves (m m' : Moment) (taken : List Nat) : (taken' : List Nat) → Prop
  /-- An entry leads to a node that has been reached, or there is nothing to do. -/
  | stay (hqueue : m'.sweep.queue = m.sweep.queue) : Moves m m' taken taken
  /-- A node is taken from the queue. -/
  | take {node : Nat} (hqueue : m.sweep.queue = node :: m'.sweep.queue) :
      Moves m m' taken (taken ++ [node])
  /-- A node is reached and put in the queue. -/
  | enter {v : Nat} (hnew : m.sweep.distance.at? v = none)
      (hqueue : m'.sweep.queue = m.sweep.queue ++ [v]) : Moves m m' taken taken

variable {taken : List Nat} {v n : Nat}

theorem start_underway (hroot : root < nodes) :
    Underway a nodes root [] ⟨.start nodes links root, [], 0⟩ where
  frontier := ⟨0, root, start_frontier hroot, (start_frontier (a := a) hroot).at_root,
    fun _ hentry => absurd hentry List.not_mem_nil⟩

namespace Underway

theorem mem_iff (h : m.Underway a nodes root taken) :
    v ∈ taken ++ m.sweep.queue ↔ ∃ n, m.sweep.distance.at? v = some n := by
  obtain ⟨depth, node, hfrontier, -⟩ := h.frontier
  exact hfrontier.mem_iff

theorem nodup (h : m.Underway a nodes root taken) : (taken ++ m.sweep.queue).Nodup := by
  obtain ⟨depth, node, hfrontier, -⟩ := h.frontier
  exact hfrontier.nodup

/-- The next moment is like this one, distances are kept, and the queue is the same but for one
node. -/
theorem next (h : m.Underway a nodes root taken) (hfits : a.Fits nodes links) :
    ∃ taken', (m.next a).Underway a nodes root taken' ∧ m.Moves (m.next a) taken taken' ∧
      ∀ {v n}, m.sweep.distance.at? v = some n → (m.next a).sweep.distance.at? v = some n := by
  obtain ⟨depth, node, hfrontier, hnode, hrow⟩ := h.frontier
  unfold Moment.next
  cases hm : m.row with
  | cons entry row =>
      rw [hm, List.forall_mem_cons] at hrow
      obtain ⟨⟨hentry, hdepth⟩, hrest⟩ := hrow
      have hlt := hfits.target_lt hentry
      dsimp only
      rw [hdepth]
      refine ⟨taken, ⟨depth, node, hfrontier.cross hlt hnode hentry, hfrontier.at?_cross hlt hnode,
        fun e he => ⟨(hrest e he).1, rfl⟩⟩, ?_, hfrontier.at?_cross hlt⟩
      cases hat : m.sweep.distance.at? entry.1 with
      | some known => exact .stay (by rw [hfrontier.cross_of_some hat])
      | none => exact .enter hat (hfrontier.queue_cross_of_none hat)
  | nil =>
      dsimp only
      cases hqueue : m.sweep.queue with
      | nil => exact ⟨taken, h, .stay rfl, id⟩
      | cons node' rest =>
          obtain ⟨d, hnode'⟩ := hfrontier.mem_iff.mp
            (List.mem_append_right taken (hqueue ▸ List.mem_cons_self ..))
          dsimp only
          rw [hnode']
          exact ⟨taken ++ [node'], ⟨d, node', hfrontier.pop hqueue hnode', hnode',
            fun e he => ⟨he, rfl⟩⟩, .take hqueue, id⟩

/-- A move puts a node in the queue if it reaches the node. -/
theorem count_lt_iff {m' : Moment} {taken' : List Nat} (h : m.Underway a nodes root taken)
    (h' : m'.Underway a nodes root taken') (hmoves : m.Moves m' taken taken') :
    m.sweep.queue.count v < m'.sweep.queue.count v ↔
      (∃ n, m'.sweep.distance.at? v = some n) ∧ ¬ ∃ n, m.sweep.distance.at? v = some n := by
  rw [← h.mem_iff, ← h'.mem_iff]
  cases hmoves with
  | stay hqueue =>
      rw [hqueue]
      exact iff_of_false (Nat.lt_irrefl _) fun hboth => hboth.2 hboth.1
  | take hqueue =>
      rw [hqueue, List.append_assoc, List.singleton_append]
      exact iff_of_false (Nat.not_lt_of_le ((List.sublist_cons_self ..).count_le v))
        fun hboth => hboth.2 hboth.1
  | @enter u hnew hqueue =>
      have hu : u ∉ taken ++ m.sweep.queue := by
        rw [h.mem_iff, hnew]
        simp
      rw [hqueue, ← List.append_assoc, List.count_append]
      by_cases hv : v = u
      · subst hv
        simpa using hu
      · have hother : [u].count v = 0 := List.count_eq_zero.mpr (by simpa using hv)
        have hmem : v ∈ taken ++ m.sweep.queue ++ [u] ↔ v ∈ taken ++ m.sweep.queue := by
          simp [hv]
        rw [hother, hmem]
        exact iff_of_false (Nat.lt_irrefl _) fun hboth => hboth.2 hboth.1

/-- The distances in the queue, from front to back. -/
theorem exists_distances (h : m.Underway a nodes root taken) : ∃ ds : List Nat,
    m.sweep.queue.map m.sweep.distance.at? = ds.map some ∧
      ds.Pairwise fun d d' => d ≤ d' ∧ d' ≤ d + 1 := by
  obtain ⟨depth, node, hfrontier, -⟩ := h.frontier
  have hall : ∀ v ∈ m.sweep.queue,
      m.sweep.distance.at? v = some ((m.sweep.distance.at? v).getD 0) := by
    intro v hv
    obtain ⟨n, hn⟩ := hfrontier.mem_iff.mp (List.mem_append_right taken hv)
    rw [hn, Option.getD_some]
  refine ⟨m.sweep.queue.map fun v => (m.sweep.distance.at? v).getD 0, ?_, ?_⟩
  · rw [List.map_map]
    exact List.map_congr_left hall
  · rw [List.pairwise_map]
    refine hfrontier.sorted.imp_of_mem fun hu hv hle => ⟨hle (hall _ hu) (hall _ hv), ?_⟩
    -- The back of the queue is one step farther than the row at most, the front no nearer.
    exact (hfrontier.near (hall _ hv)).trans (Nat.succ_le_succ (hfrontier.far hu (hall _ hu)))

end Underway

/-! ### All moments -/

section All

variable (hfits : a.Fits nodes links) (hroot : root < nodes)
include hfits hroot

theorem underway_of (k : Nat) : ∃ taken, (of a nodes links root k).Underway a nodes root taken := by
  induction k with
  | zero => exact ⟨[], start_underway hroot⟩
  | succ k ih =>
      obtain ⟨taken, h⟩ := ih
      obtain ⟨taken', hnext, -⟩ := h.next hfits
      rw [of, Function.iterate_succ_apply']
      exact ⟨taken', hnext⟩

/-- What has a distance keeps it. -/
theorem at?_of_le {k k' : Nat} (hle : k ≤ k')
    (hv : (of a nodes links root k).sweep.distance.at? v = some n) :
    (of a nodes links root k').sweep.distance.at? v = some n := by
  induction hle with
  | refl => exact hv
  | step _ ih =>
      obtain ⟨taken, h⟩ := underway_of hfits hroot _
      obtain ⟨-, -, -, hkeeps⟩ := h.next hfits
      rw [of, Function.iterate_succ_apply']
      exact hkeeps ih

/-- A node enters the queue when it is reached. -/
theorem enters_iff (k : Nat) : Enters (of a nodes links root) v k ↔
    IsLeast {k | ∃ n, (of a nodes links root k).sweep.distance.at? v = some n} k := by
  cases k with
  | zero =>
      have hstart : Underway a nodes root [] ⟨.start nodes links root, [], 0⟩ :=
        start_underway hroot
      have hbound : (0 : Nat) ∈ lowerBounds
          {k | ∃ n, (of a nodes links root k).sweep.distance.at? v = some n} :=
        fun k _ => Nat.zero_le k
      rw [IsLeast, and_iff_left hbound, Enters, queueBefore, List.count_nil, List.count_pos_iff]
      exact hstart.mem_iff
  | succ k =>
      obtain ⟨taken, h⟩ := underway_of hfits hroot k
      obtain ⟨taken', hnext, hmoves, -⟩ := h.next hfits
      have hsucc : of a nodes links root (k + 1) = (of a nodes links root k).next a :=
        Function.iterate_succ_apply' ..
      rw [Enters, queueBefore, hsucc, h.count_lt_iff hnext hmoves, ← hsucc]
      refine and_congr_right fun _ => ⟨fun hnot j hj => ?_, fun hleast hk => ?_⟩
      · obtain ⟨n, hn⟩ := hj
        by_contra hlt
        exact hnot ⟨n, at?_of_le hfits hroot (Nat.le_of_lt_succ (Nat.lt_of_not_le hlt)) hn⟩
      · exact Nat.not_succ_le_self k (hleast hk)

/-- Some moment reaches each node that a chain leads to, and no other node. -/
theorem exists_reached_iff : (∃ k n, (of a nodes links root k).sweep.distance.at? v = some n) ↔
    ∃ n, Chain a.Leads root n v := by
  constructor
  · intro h
    obtain ⟨k, n, hn⟩ := h
    obtain ⟨taken, hunderway⟩ := underway_of hfits hroot k
    obtain ⟨depth, node, hfrontier, -⟩ := hunderway.frontier
    exact ⟨n, hfrontier.chain hn⟩
  · intro h
    obtain ⟨n, hchain⟩ := h
    obtain ⟨hqueue, taken, crossed, hswept⟩ := run_start hfits hroot
    obtain ⟨d, hd, -⟩ := hswept.at?_le_of_chain hqueue hchain
    obtain ⟨k, -, hrun⟩ := exists_run (a := a) (m := ⟨.start nodes links root, [], 0⟩) rfl nodes
    exact ⟨k, d, by rw [of, hrun, hd]⟩

/-- A node that a chain leads to enters the queue once. -/
theorem existsUnique_enters (h : ∃ n, Chain a.Leads root n v) :
    ∃! k, Enters (of a nodes links root) v k := by
  classical
  have hex := (exists_reached_iff hfits hroot).mpr h
  simp only [enters_iff hfits hroot]
  exact ⟨Nat.find hex, ⟨Nat.find_spec hex, fun k hk => Nat.find_min' hex hk⟩,
    fun k hk => hk.unique ⟨Nat.find_spec hex, fun k hk => Nat.find_min' hex hk⟩⟩

end All

end Moment

/-! ### The number of rounds -/

variable {a : Adjacency} {nodes links root : Nat} {taken : List Nat} {crossed : List Crossing}
  {s : Sweep}

/-- When the queue is empty, what has been taken is what can be reached. -/
theorem Swept.mem_taken_iff (h : s.Swept a nodes links root taken crossed) (hqueue : s.queue = [])
    {v : Nat} : v ∈ taken ↔ ∃ n, Chain a.Leads root n v := by
  obtain ⟨depth, hfrontier⟩ := h.frontier
  have hmem := hfrontier.mem_iff (v := v)
  rw [hqueue, List.append_nil] at hmem
  rw [hmem]
  constructor
  · intro hv
    obtain ⟨n, hn⟩ := hv
    exact ⟨n, hfrontier.chain hn⟩
  · intro hv
    obtain ⟨n, hchain⟩ := hv
    obtain ⟨d, hd, -⟩ := h.at?_le_of_chain hqueue hchain
    exact ⟨d, hd⟩

/-- When the queue is empty, as many nodes have been taken as can be reached. -/
theorem Swept.length_taken (h : s.Swept a nodes links root taken crossed) (hqueue : s.queue = []) :
    taken.length = {v | ∃ n, Chain a.Leads root n v}.ncard := by
  obtain ⟨depth, hfrontier⟩ := h.frontier
  have hset : {v | ∃ n, Chain a.Leads root n v} = (taken.toFinset : Set Nat) := by
    ext v
    rw [Finset.mem_coe, List.mem_toFinset, h.mem_taken_iff hqueue]
    rfl
  rw [hset, Set.ncard_coe_finset, List.toFinset_card_of_nodup]
  exact (List.nodup_append.mp hfrontier.nodup).1

/-- Until the queue is empty, more nodes can be reached than have been taken. -/
theorem Swept.length_taken_lt (h : s.Swept a nodes links root taken crossed)
    (hfinite : {v | ∃ n, Chain a.Leads root n v}.Finite) (hqueue : s.queue ≠ []) :
    taken.length < {v | ∃ n, Chain a.Leads root n v}.ncard := by
  obtain ⟨depth, hfrontier⟩ := h.frontier
  have hsub : ((taken ++ s.queue).toFinset : Set Nat) ⊆ {v | ∃ n, Chain a.Leads root n v} := by
    intro v hv
    rw [Finset.mem_coe, List.mem_toFinset, hfrontier.mem_iff] at hv
    obtain ⟨n, hn⟩ := hv
    exact ⟨n, hfrontier.chain hn⟩
  have hle := Set.ncard_le_ncard hsub hfinite
  rw [Set.ncard_coe_finset, List.toFinset_card_of_nodup hfrontier.nodup, List.length_append] at hle
  have hpos := List.length_pos_iff.mpr hqueue
  omega

/-- The queue is empty after as many rounds as there are nodes to be reached, and not before. -/
theorem queue_run_start_eq_nil_iff (hfits : a.Fits nodes links) (hroot : root < nodes)
    (rounds : Nat) : ((start nodes links root).run a rounds).queue = [] ↔
      {v | ∃ n, Chain a.Leads root n v}.ncard ≤ rounds := by
  have hstart : (start nodes links root).Swept a nodes links root [] [] := start_swept hroot
  obtain ⟨taken, crossed, hrun, hle, heq⟩ := hstart.run hfits rounds
  rw [List.length_nil, Nat.zero_add] at hle heq
  constructor
  · intro hqueue
    rwa [← hrun.length_taken hqueue]
  · intro hrounds
    by_contra hqueue
    have hfinite : {v | ∃ n, Chain a.Leads root n v}.Finite := by
      obtain ⟨hend, taken', crossed', hswept⟩ := run_start hfits hroot
      refine taken'.finite_toSet.subset fun v hv => (hswept.mem_taken_iff hend).mpr hv
    have hlt := hrun.length_taken_lt hfinite hqueue
    have hlength := heq hqueue
    omega

end Sweep

/-! ### Networks -/

namespace Network

/-- An opinion is reached from another one, going one way along citations. -/
def ReachesAlong (g : Network) : Way → Nat → Nat → Prop
  | .cites, i, j => g.Reaches i j
  | .citedBy, i, j => g.Reaches j i

/-- The moments of a sweep of a network. -/
def moments (g : Network) (way : Way) (root : Nat) : Nat → Sweep.Moment :=
  .of (g.adjacency way) g.size g.linkCount root

/-- A sweep of a network takes every opinion that it reaches once. -/
structure SweepsOnce (g : Network) (way : Way) (root : Nat) : Prop where
  /-- The moments pass through the state after every number of rounds. -/
  exists_run : ∀ rounds, ∃ k, (g.moments way root k).row = [] ∧
    (g.moments way root k).sweep =
      (Sweep.start g.size g.linkCount root).run (g.adjacency way) rounds
  /-- The queue is empty after as many rounds as there are opinions that are reached, and not
  before. -/
  queue_eq_nil_iff : ∀ rounds,
    ((Sweep.start g.size g.linkCount root).run (g.adjacency way) rounds).queue = [] ↔
      {i | g.ReachesAlong way root i}.ncard ≤ rounds
  /-- An opinion that is reached is put in the queue at one moment, -/
  existsUnique_enters : ∀ i, g.ReachesAlong way root i →
    ∃! k, Sweep.Moment.Enters (g.moments way root) i k
  /-- and any other at none. -/
  reachesAlong_of_enters : ∀ i k, Sweep.Moment.Enters (g.moments way root) i k →
    g.ReachesAlong way root i
  /-- At every moment the distances in the queue do not decrease, and differ by one at most. -/
  distances : ∀ k, ∃ ds : List Nat,
    (g.moments way root k).sweep.queue.map (g.moments way root k).sweep.distance.at? =
      ds.map some ∧ ds.Pairwise fun d d' => d ≤ d' ∧ d' ≤ d + 1
  /-- A distance that is known at one moment is the same at every later one. -/
  at?_of_le : ∀ k k' i n, k ≤ k' → (g.moments way root k).sweep.distance.at? i = some n →
    (g.moments way root k').sweep.distance.at? i = some n

theorem Drawn.reachesAlong_iff {g : Network} (hg : g.Drawn) {way : Way} {i j : Nat} :
    g.ReachesAlong way i j ↔ ∃ n, Chain (g.adjacency way).Leads i n j := by
  cases way with
  | cites =>
      rw [adjacency, hg.leads_cites]
      rfl
  | citedBy =>
      rw [adjacency, hg.leads_citedBy]
      exact exists_congr fun n => Chain.swap_iff.symm

/-- **Sweeps take every opinion once,** for every list of records that is accepted, either way and
every root. -/
theorem ofRecords_sweepsOnce {records : List OpinionRecord} {g : Network}
    (h : ofRecords records = .ok g) (way : Way) {root : Nat} (hroot : root < g.size) :
    g.SweepsOnce way root := by
  obtain ⟨-, hg⟩ := ofRecords_drawn h
  have hfits := hg.fits way
  have hset : {i | g.ReachesAlong way root i} =
      {i | ∃ n, Chain (g.adjacency way).Leads root n i} :=
    Set.ext fun i => hg.reachesAlong_iff
  refine
    { exists_run := Sweep.Moment.exists_run rfl
      queue_eq_nil_iff := fun rounds => hset ▸ Sweep.queue_run_start_eq_nil_iff hfits hroot rounds
      existsUnique_enters := fun i hi =>
        Sweep.Moment.existsUnique_enters hfits hroot (hg.reachesAlong_iff.mp hi)
      reachesAlong_of_enters := fun i k hk => ?_
      distances := fun k => ?_
      at?_of_le := fun _ _ _ _ => Sweep.Moment.at?_of_le hfits hroot }
  · exact hg.reachesAlong_iff.mpr ((Sweep.Moment.exists_reached_iff hfits hroot).mp
      ⟨k, ((Sweep.Moment.enters_iff hfits hroot k).mp hk).1⟩)
  · obtain ⟨taken, hunderway⟩ := Sweep.Moment.underway_of hfits hroot k
    exact hunderway.exists_distances

/-- The three opinions of the loop and the first one are reached from the second, but not the fifth,
so four rounds are taken. -/
theorem fiveRecords_sweepsOnce : ∃ g, ofRecords fiveRecords = .ok g ∧
    ((List.range 6).map fun rounds =>
      ((Sweep.start g.size g.linkCount 1).run g.cites rounds).queue) =
        [[1], [0, 2], [2], [3], [], []] ∧
    1 < g.size ∧ g.SweepsOnce .cites 1 := by
  obtain ⟨g, hok, hall⟩ := exists_ok_of_map_toOption (x := ofRecords fiveRecords)
    (f := fun g => (g.size, (List.range 6).map fun rounds =>
      ((Sweep.start g.size g.linkCount 1).run g.cites rounds).queue))
    (b := (5, [[1], [0, 2], [2], [3], [], []])) (by cbv)
  obtain ⟨hsize, hqueues⟩ := Prod.mk.inj hall
  have hroot : 1 < g.size := by
    rw [hsize]
    decide
  exact ⟨g, hok, hqueues, hroot, ofRecords_sweepsOnce hok .cites hroot⟩

end Network

end Precedent
