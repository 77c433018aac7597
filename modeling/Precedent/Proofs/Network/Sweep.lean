import Mathlib.Data.List.Nodup
import Mathlib.Data.List.Perm.Subperm
import Precedent.Proofs.Network.Chain
import Precedent.Proofs.Network.Depths

/-!
# Precedent.Proofs.Network.Sweep

**A sweep finds shortest chains.** While a sweep goes on, no distance is ever improved: the queue
holds nodes of at most two depths, the nearer ones first, so what is reached later is not nearer.
When the queue is empty every entry of every row that has been reached has been crossed, and then
no chain is shorter than a distance.

The invariant has two parts. `Frontier` is about distances and the queue, `Stamped` about the
depths noted for links; both hold between any two crossings, and each has one lemma on what a
crossing does to it. The depth noted for a link is the length of a shortest chain whose last step
crosses the link.
-/

namespace Precedent

namespace Adjacency

/-- A node has another one among its neighbours. -/
def Leads (a : Adjacency) (u v : Nat) : Prop := v ∈ a.neighbours u

theorem leads_of_mem {a : Adjacency} {u : Nat} {entry : Nat × Nat} (h : entry ∈ a.row u) :
    a.Leads u entry.1 := List.mem_map_of_mem h

/-- All nodes and slots that the rows name are in bounds. -/
structure Fits (a : Adjacency) (nodes links : Nat) : Prop where
  target_lt : ∀ {u entry}, entry ∈ a.row u → entry.1 < nodes
  slot_lt : ∀ {u entry}, entry ∈ a.row u → entry.2 < links

end Adjacency

/-- An entry of the row of a node, crossed at the depth of the far end. -/
structure Crossing where
  source : Nat
  entry : Nat × Nat
  depth : Nat

namespace Sweep

/-! ### What holds while a sweep goes on -/

/-- What holds of the distances and the queue when some nodes have been taken from the queue, and
the row of one at a given depth is being crossed. -/
structure Frontier (a : Adjacency) (nodes root : Nat) (taken : List Nat) (depth : Nat) (s : Sweep) :
    Prop where
  size_distance : s.distance.size = nodes
  at_root : s.distance.at? root = some 0
  /-- A distance is the length of a chain. -/
  chain : ∀ {v n}, s.distance.at? v = some n → Chain a.Leads root n v
  /-- A node is in the queue once at most, and never again after it has been taken. -/
  nodup : (taken ++ s.queue).Nodup
  mem_iff : ∀ {v}, v ∈ taken ++ s.queue ↔ ∃ n, s.distance.at? v = some n
  /-- Nothing that has been reached is more than one step farther than the row. -/
  near : ∀ {v n}, s.distance.at? v = some n → n ≤ depth + 1
  /-- Nothing in the queue is nearer than the row. -/
  far : ∀ {v n}, v ∈ s.queue → s.distance.at? v = some n → depth ≤ n
  /-- The nearer nodes come first. -/
  sorted : s.queue.Pairwise fun u v =>
    ∀ {m n}, s.distance.at? u = some m → s.distance.at? v = some n → m ≤ n

/-- What holds of the links when some entries have been crossed. -/
structure Stamped (a : Adjacency) (links : Nat) (crossed : List Crossing) (s : Sweep) : Prop where
  size_crossing : s.crossing.size = links
  row : ∀ {c}, c ∈ crossed → c.entry ∈ a.row c.source
  source : ∀ {c}, c ∈ crossed → ∃ n, s.distance.at? c.source = some n ∧ c.depth = n + 1
  target : ∀ {c}, c ∈ crossed → ∃ n, s.distance.at? c.entry.1 = some n ∧ n ≤ c.depth
  stamps : s.crossing.Least fun slot => {n | ∃ c ∈ crossed, c.entry.2 = slot ∧ c.depth = n}

variable {a : Adjacency} {nodes links root depth node : Nat} {crossed : List Crossing}
  {taken rest : List Nat} {entry : Nat × Nat} {s : Sweep}

/-! ### The start -/

theorem at?_start_iff (hroot : root < nodes) {v n : Nat} :
    (start nodes links root).distance.at? v = some n ↔ v = root ∧ n = 0 := by
  unfold start
  by_cases hv : root = v
  · subst hv
    rw [Depths.at?_note_self (by rwa [Depths.size_unknown])]
    simp [eq_comm]
  · rw [Depths.at?_note_ne hv, Depths.at?_unknown]
    simp [Ne.symm hv]

theorem start_frontier (hroot : root < nodes) :
    (start nodes links root).Frontier a nodes root [] 0 where
  size_distance := Depths.size_note.trans (Depths.size_unknown nodes)
  at_root := (at?_start_iff hroot).mpr ⟨rfl, rfl⟩
  chain := by
    intro v n hv
    obtain ⟨rfl, rfl⟩ := (at?_start_iff hroot).mp hv
    exact .nil
  nodup := List.nodup_singleton root
  mem_iff := by
    intro v
    simp only [at?_start_iff hroot, exists_and_left, exists_eq, and_true]
    exact List.mem_singleton
  near := by
    intro v n hv
    rw [((at?_start_iff hroot).mp hv).2]
    exact Nat.zero_le _
  far := fun _ _ => Nat.zero_le _
  sorted := List.pairwise_singleton _ root

theorem start_stamped : (start nodes links root).Stamped a links [] where
  size_crossing := Depths.size_unknown links
  row := fun h => absurd h List.not_mem_nil
  source := fun h => absurd h List.not_mem_nil
  target := fun h => absurd h List.not_mem_nil
  stamps := (Depths.Least.unknown links).congr fun slot => by simp

/-! ### Taking a node -/

/-- The next node is taken from the queue. -/
theorem Frontier.pop (h : s.Frontier a nodes root taken depth) (hqueue : s.queue = node :: rest)
    {d : Nat} (hnode : s.distance.at? node = some d) :
    Frontier a nodes root (taken ++ [node]) d { s with queue := rest } := by
  have hsorted := h.sorted
  rw [hqueue, List.pairwise_cons] at hsorted
  -- What is near to the row before is near to this one, since it is no nearer itself.
  have hle : depth ≤ d := h.far (hqueue ▸ List.mem_cons_self ..) hnode
  have hsplit : taken ++ [node] ++ rest = taken ++ s.queue := by
    rw [hqueue, List.append_assoc, List.singleton_append]
  exact
    { size_distance := h.size_distance
      at_root := h.at_root
      chain := h.chain
      nodup := hsplit ▸ h.nodup
      mem_iff := hsplit ▸ h.mem_iff
      near := fun hv => (h.near hv).trans (Nat.succ_le_succ hle)
      far := fun hv hat => hsorted.1 _ hv hnode hat
      sorted := hsorted.2 }

/-! ### Crossing an entry -/

namespace Frontier

variable (h : s.Frontier a nodes root taken depth)
include h

/-- No distance improves twice. -/
theorem improves_iff {v : Nat} :
    s.distance.improves v (depth + 1) = true ↔ s.distance.at? v = none := by
  unfold Depths.improves
  cases hat : s.distance.at? v with
  | none => simp
  | some known => simpa using h.near hat

theorem cross_of_some {known : Nat} (hknown : s.distance.at? entry.1 = some known) :
    cross (depth + 1) s entry = { s with crossing := s.crossing.lower entry.2 (depth + 1) } := by
  refine if_neg ?_
  rw [h.improves_iff, hknown]
  exact Option.some_ne_none known

theorem cross_of_none (hnew : s.distance.at? entry.1 = none) :
    cross (depth + 1) s entry =
      { distance := s.distance.note entry.1 (depth + 1)
        crossing := s.crossing.lower entry.2 (depth + 1)
        queue := s.queue ++ [entry.1] } :=
  if_pos (h.improves_iff.mpr hnew)

/-- What has been reached keeps its distance, and the far end is reached. -/
theorem at?_cross_iff (hlt : entry.1 < nodes) {v n : Nat} :
    (cross (depth + 1) s entry).distance.at? v = some n ↔
      s.distance.at? v = some n ∨
        (s.distance.at? entry.1 = none ∧ v = entry.1 ∧ n = depth + 1) := by
  cases hat : s.distance.at? entry.1 with
  | some known =>
      rw [h.cross_of_some hat]
      simp
  | none =>
      rw [h.cross_of_none hat]
      by_cases hv : entry.1 = v
      · subst hv
        rw [Depths.at?_note_self (h.size_distance ▸ hlt), hat]
        simp [eq_comm]
      · rw [Depths.at?_note_ne hv]
        simp [Ne.symm hv]

theorem at?_cross (hlt : entry.1 < nodes) {v n : Nat} (hv : s.distance.at? v = some n) :
    (cross (depth + 1) s entry).distance.at? v = some n :=
  (h.at?_cross_iff hlt).mpr (Or.inl hv)

theorem at?_cross_target (hlt : entry.1 < nodes) :
    ∃ n, (cross (depth + 1) s entry).distance.at? entry.1 = some n ∧ n ≤ depth + 1 := by
  cases hat : s.distance.at? entry.1 with
  | some known => exact ⟨known, h.at?_cross hlt hat, h.near hat⟩
  | none => exact ⟨_, (h.at?_cross_iff hlt).mpr (Or.inr ⟨hat, rfl, rfl⟩), Nat.le_refl _⟩

section New

variable (hlt : entry.1 < nodes) (hnew : s.distance.at? entry.1 = none)
include hnew

theorem not_mem_of_none : entry.1 ∉ taken ++ s.queue := by
  rw [h.mem_iff, hnew]
  simp

theorem queue_cross_of_none : (cross (depth + 1) s entry).queue = s.queue ++ [entry.1] := by
  rw [h.cross_of_none hnew]

include hlt

/-- What was in the queue before has the distance that it had. -/
theorem at?_of_mem_queue {v n : Nat} (hmem : v ∈ s.queue)
    (hv : (cross (depth + 1) s entry).distance.at? v = some n) : s.distance.at? v = some n := by
  rcases (h.at?_cross_iff hlt).mp hv with hv | ⟨-, rfl, -⟩
  · exact hv
  · exact absurd (List.mem_append_right taken hmem) (h.not_mem_of_none hnew)

/-- The node that is put at the end of the queue is not nearer than any before it. -/
theorem sorted_cross_of_none : (cross (depth + 1) s entry).queue.Pairwise fun u v =>
    ∀ {m n}, (cross (depth + 1) s entry).distance.at? u = some m →
      (cross (depth + 1) s entry).distance.at? v = some n → m ≤ n := by
  rw [h.queue_cross_of_none hnew, List.pairwise_append]
  refine ⟨?_, List.pairwise_singleton _ _, ?_⟩
  · refine h.sorted.imp_of_mem fun hu hv hle m n hum hvn => ?_
    exact hle (h.at?_of_mem_queue hlt hnew hu hum) (h.at?_of_mem_queue hlt hnew hv hvn)
  · intro u hu v hv m n hum hvn
    obtain rfl := List.mem_singleton.mp hv
    rcases (h.at?_cross_iff hlt).mp hvn with hvn | ⟨-, -, rfl⟩
    · simp [hnew] at hvn
    · exact h.near (h.at?_of_mem_queue hlt hnew hu hum)

/-- A node that was not reached before is put at the end of the queue. -/
theorem cross_new (hnode : s.distance.at? node = some depth) (hentry : entry ∈ a.row node) :
    (cross (depth + 1) s entry).Frontier a nodes root taken depth where
  size_distance := by
    rw [h.cross_of_none hnew]
    exact Depths.size_note.trans h.size_distance
  at_root := h.at?_cross hlt h.at_root
  chain := by
    intro v n hv
    rcases (h.at?_cross_iff hlt).mp hv with hv | ⟨-, rfl, rfl⟩
    · exact h.chain hv
    · exact (h.chain hnode).snoc (Adjacency.leads_of_mem hentry)
  nodup := by
    rw [h.queue_cross_of_none hnew, ← List.append_assoc, ← List.concat_eq_append,
      List.nodup_concat]
    exact ⟨h.not_mem_of_none hnew, h.nodup⟩
  mem_iff := by
    intro v
    rw [h.queue_cross_of_none hnew, ← List.append_assoc, List.mem_append, h.mem_iff,
      List.mem_singleton]
    simp only [h.at?_cross_iff hlt, hnew, true_and, exists_or, exists_and_left, exists_eq, and_true]
  near := by
    intro v n hv
    rcases (h.at?_cross_iff hlt).mp hv with hv | ⟨-, -, rfl⟩
    · exact h.near hv
    · exact Nat.le_refl _
  far := by
    intro v n hmem hv
    rcases (h.at?_cross_iff hlt).mp hv with hold | ⟨-, -, rfl⟩
    · rw [h.queue_cross_of_none hnew, List.mem_append, List.mem_singleton] at hmem
      rcases hmem with hmem | rfl
      · exact h.far hmem hold
      · simp [hnew] at hold
    · exact Nat.le_succ depth
  sorted := h.sorted_cross_of_none hlt hnew

end New

/-- A crossing keeps the frontier: what has been reached stays where it is. -/
theorem cross (hlt : entry.1 < nodes) (hnode : s.distance.at? node = some depth)
    (hentry : entry ∈ a.row node) :
    (cross (depth + 1) s entry).Frontier a nodes root taken depth := by
  cases hat : s.distance.at? entry.1 with
  | some known =>
      rw [h.cross_of_some hat]
      exact ⟨h.size_distance, h.at_root, h.chain, h.nodup, h.mem_iff, h.near, h.far, h.sorted⟩
  | none => exact h.cross_new hlt hat hnode hentry

end Frontier

/-- A crossing stamps its link, and the other stamps stay. -/
theorem Stamped.cross (h : s.Stamped a links crossed)
    (hfrontier : s.Frontier a nodes root taken depth) (hfits : a.Fits nodes links)
    (hnode : s.distance.at? node = some depth) (hentry : entry ∈ a.row node) :
    (cross (depth + 1) s entry).Stamped a links (crossed ++ [⟨node, entry, depth + 1⟩]) := by
  have hlt := hfits.target_lt hentry
  have hcrossing : (Sweep.cross (depth + 1) s entry).crossing =
      s.crossing.lower entry.2 (depth + 1) := by
    unfold Sweep.cross
    split <;> rfl
  -- Each crossing is an old one or the one that is made now.
  have hcases : ∀ {c : Crossing}, c ∈ crossed ++ [⟨node, entry, depth + 1⟩] →
      c ∈ crossed ∨ c = ⟨node, entry, depth + 1⟩ := by
    intro c hc
    rwa [List.mem_append, List.mem_singleton] at hc
  exact
    { size_crossing := by rw [hcrossing, Depths.size_lower, h.size_crossing]
      row := by
        intro c hc
        rcases hcases hc with hc | rfl
        · exact h.row hc
        · exact hentry
      source := by
        intro c hc
        rcases hcases hc with hc | rfl
        · obtain ⟨n, hn, hdepth⟩ := h.source hc
          exact ⟨n, hfrontier.at?_cross hlt hn, hdepth⟩
        · exact ⟨depth, hfrontier.at?_cross hlt hnode, rfl⟩
      target := by
        intro c hc
        rcases hcases hc with hc | rfl
        · obtain ⟨n, hn, hle⟩ := h.target hc
          exact ⟨n, hfrontier.at?_cross hlt hn, hle⟩
        · exact hfrontier.at?_cross_target hlt
      stamps := by
        rw [hcrossing]
        refine (h.stamps.lower (h.size_crossing ▸ hfits.slot_lt hentry)).congr fun slot => ?_
        ext n
        simp only [Set.mem_ofPred_eq, List.mem_append, List.mem_singleton]
        constructor
        · intro hn
          rcases hn with ⟨rfl, rfl⟩ | ⟨c, hc, hn⟩
          · exact ⟨_, Or.inr rfl, rfl, rfl⟩
          · exact ⟨c, Or.inl hc, hn⟩
        · intro hn
          obtain ⟨c, hc | rfl, hn⟩ := hn
          · exact Or.inr ⟨c, hc, hn⟩
          · exact Or.inl ⟨hn.1.symm, hn.2.symm⟩ }

/-! ### Whole rows -/

/-- What holds between two rounds: the rows of the nodes that have been taken have been crossed. -/
structure Swept (a : Adjacency) (nodes links root : Nat) (taken : List Nat)
    (crossed : List Crossing) (s : Sweep) : Prop where
  frontier : ∃ depth, s.Frontier a nodes root taken depth
  stamped : s.Stamped a links crossed
  complete : ∀ u ∈ taken, ∀ entry ∈ a.row u, ∃ c ∈ crossed, c.source = u ∧ c.entry = entry

theorem start_swept (hroot : root < nodes) :
    (start nodes links root).Swept a nodes links root [] [] where
  frontier := ⟨0, start_frontier hroot⟩
  stamped := start_stamped
  complete := fun _ hu => absurd hu List.not_mem_nil

/-- The crossings of some entries of a row. -/
def crossings (node depth : Nat) (entries : List (Nat × Nat)) : List Crossing :=
  entries.map fun entry => ⟨node, entry, depth + 1⟩

/-- Crossing some entries of a row, one after the other. -/
theorem foldl_cross (hfits : a.Fits nodes links) {entries : List (Nat × Nat)}
    (hrow : ∀ entry ∈ entries, entry ∈ a.row node)
    (hfrontier : s.Frontier a nodes root taken depth) (hstamped : s.Stamped a links crossed)
    (hnode : s.distance.at? node = some depth) :
    (entries.foldl (cross (depth + 1)) s).Frontier a nodes root taken depth ∧
      (entries.foldl (cross (depth + 1)) s).Stamped a links
        (crossed ++ crossings node depth entries) := by
  induction entries generalizing s crossed with
  | nil => exact ⟨hfrontier, by simpa [crossings] using hstamped⟩
  | cons entry rest ih =>
      have hentry := hrow entry (List.mem_cons_self ..)
      have hlt := hfits.target_lt hentry
      rw [crossings, List.map_cons, List.append_cons, List.foldl_cons]
      exact ih (fun e he => hrow e (List.mem_cons_of_mem _ he))
        (hfrontier.cross hlt hnode hentry) (hstamped.cross hfrontier hfits hnode hentry)
        (hfrontier.at?_cross hlt hnode)

/-- A round takes the next node and crosses its row. -/
theorem Swept.round (h : s.Swept a nodes links root taken crossed) (hfits : a.Fits nodes links)
    (hqueue : s.queue = node :: rest) :
    ∃ crossed, (s.round a).Swept a nodes links root (taken ++ [node]) crossed := by
  obtain ⟨depth, hfrontier⟩ := h.frontier
  obtain ⟨d, hnode⟩ := hfrontier.mem_iff.mp
    (List.mem_append_right taken (hqueue ▸ List.mem_cons_self ..))
  have hround : s.round a = (a.row node).foldl (cross (d + 1)) { s with queue := rest } := by
    unfold Sweep.round
    rw [hqueue]
    dsimp only
    rw [hnode]
  have hstamped : Stamped a links crossed { s with queue := rest } :=
    ⟨h.stamped.size_crossing, h.stamped.row, h.stamped.source, h.stamped.target, h.stamped.stamps⟩
  obtain ⟨hfrontier', hstamped'⟩ := foldl_cross hfits (fun _ he => he)
    (hfrontier.pop hqueue hnode) hstamped hnode
  rw [← hround] at hfrontier' hstamped'
  refine ⟨_, ⟨d, hfrontier'⟩, hstamped', fun u hu entry hentry => ?_⟩
  rcases List.mem_append.mp hu with hu | hu
  · obtain ⟨c, hc, heq⟩ := h.complete u hu entry hentry
    exact ⟨c, List.mem_append_left _ hc, heq⟩
  · obtain rfl := List.mem_singleton.mp hu
    exact ⟨_, List.mem_append_right _ (List.mem_map_of_mem hentry), rfl, rfl⟩

/-- There are no more nodes that have been reached than there are. -/
theorem Frontier.length_le (h : s.Frontier a nodes root taken depth) {us : List Nat}
    (hnodup : us.Nodup) (hreached : ∀ u ∈ us, ∃ n, s.distance.at? u = some n) :
    us.length ≤ nodes := by
  have hsubset : us ⊆ List.range nodes := by
    intro u hu
    obtain ⟨n, hat⟩ := hreached u hu
    exact List.mem_range.mpr (h.size_distance ▸ Depths.lt_size_of_at? hat)
  have hle := (List.Nodup.subperm hnodup hsubset).length_le
  rwa [List.length_range] at hle

/-- No more nodes are ever taken and queued than there are. -/
theorem Swept.length_le (h : s.Swept a nodes links root taken crossed) :
    taken.length + s.queue.length ≤ nodes := by
  obtain ⟨depth, hfrontier⟩ := h.frontier
  rw [← List.length_append]
  exact hfrontier.length_le hfrontier.nodup fun v hv => hfrontier.mem_iff.mp hv

theorem run_of_queue_nil (hqueue : s.queue = []) (rounds : Nat) : s.run a rounds = s := by
  induction rounds with
  | zero => rfl
  | succ rounds ih =>
      have hround : s.round a = s := by
        unfold round
        rw [hqueue]
      rw [run, hround, ih]

/-- Each round takes one node, until none is left. -/
theorem Swept.run (hfits : a.Fits nodes links) (rounds : Nat)
    (h : s.Swept a nodes links root taken crossed) : ∃ taken' crossed',
    (s.run a rounds).Swept a nodes links root taken' crossed' ∧
      taken'.length ≤ taken.length + rounds ∧
      ((s.run a rounds).queue ≠ [] → taken'.length = taken.length + rounds) := by
  induction rounds generalizing s taken crossed with
  | zero => exact ⟨taken, crossed, h, Nat.le_refl _, fun _ => rfl⟩
  | succ rounds ih =>
      cases hqueue : s.queue with
      | nil =>
          rw [run_of_queue_nil hqueue]
          exact ⟨taken, crossed, h, Nat.le_add_right .., absurd hqueue⟩
      | cons node rest =>
          obtain ⟨crossed', hround⟩ := h.round hfits hqueue
          obtain ⟨taken', crossed'', hrun, hle, heq⟩ := ih hround
          rw [List.length_append, List.length_singleton] at hle heq
          exact ⟨taken', crossed'', hrun, by omega, fun hne => by have := heq hne; omega⟩

/-- As many rounds as there are nodes left empty the queue. -/
theorem Swept.queue_run_eq_nil (hfits : a.Fits nodes links) {rounds : Nat}
    (h : s.Swept a nodes links root taken crossed) (hrounds : nodes ≤ taken.length + rounds) :
    (s.run a rounds).queue = [] := by
  obtain ⟨taken', crossed', hrun, -, heq⟩ := h.run hfits rounds
  by_contra hne
  -- All nodes have been taken, so none is left for the queue.
  have hle := hrun.length_le
  have hpos := List.length_pos_iff.mpr hne
  have hlength := heq hne
  omega

/-! ### The end -/

section Done

variable (h : s.Swept a nodes links root taken crossed) (hqueue : s.queue = [])
include h hqueue

/-- When the queue is empty, every entry of what has been reached has been crossed. -/
theorem Swept.exists_crossing {u n : Nat} (hu : s.distance.at? u = some n)
    (hentry : entry ∈ a.row u) : ∃ c ∈ crossed, c.entry = entry ∧ c.depth = n + 1 := by
  obtain ⟨depth, hfrontier⟩ := h.frontier
  have htaken : u ∈ taken := by
    have hmem := hfrontier.mem_iff.mpr ⟨n, hu⟩
    rwa [hqueue, List.append_nil] at hmem
  obtain ⟨c, hc, rfl, heq⟩ := h.complete u htaken entry hentry
  obtain ⟨m, hm, hdepth⟩ := h.stamped.source hc
  rw [hu] at hm
  exact ⟨c, hc, heq, by rw [hdepth, Option.some.inj hm]⟩

/-- No chain is shorter than the distance. -/
theorem Swept.at?_le_of_chain {v n : Nat} (hchain : Chain a.Leads root n v) :
    ∃ m, s.distance.at? v = some m ∧ m ≤ n := by
  induction hchain with
  | nil =>
      obtain ⟨depth, hfrontier⟩ := h.frontier
      exact ⟨0, hfrontier.at_root, Nat.le_refl 0⟩
  | snoc _ hstep ih =>
      -- The last step starts where something has been reached, so it has been crossed.
      obtain ⟨m, hm, hle⟩ := ih
      obtain ⟨entry, hentry, rfl⟩ := List.mem_map.mp hstep
      obtain ⟨c, hc, rfl, hdepth⟩ := h.exists_crossing hqueue hm hentry
      obtain ⟨k, hk, hle'⟩ := h.stamped.target hc
      exact ⟨k, hk, by omega⟩

/-- **The distances are the lengths of shortest chains.** -/
theorem Swept.distance_least : s.distance.Least fun v => {n | Chain a.Leads root n v} := by
  obtain ⟨depth, hfrontier⟩ := h.frontier
  intro v c
  constructor
  · intro hc
    refine ⟨hfrontier.chain hc, fun n hchain => ?_⟩
    obtain ⟨m, hm, hle⟩ := h.at?_le_of_chain hqueue hchain
    rw [hc] at hm
    rwa [Option.some.inj hm]
  · intro hc
    obtain ⟨m, hm, hle⟩ := h.at?_le_of_chain hqueue hc.1
    rw [hm, Nat.le_antisymm hle (hc.2 (hfrontier.chain hm))]

/-- **The depth of a link is the length of a shortest chain whose last step crosses it.** -/
theorem Swept.crossing_least : s.crossing.Least fun slot =>
    {n | ∃ u m entry, Chain a.Leads root m u ∧ entry ∈ a.row u ∧ entry.2 = slot ∧ n = m + 1} := by
  obtain ⟨depth, hfrontier⟩ := h.frontier
  intro slot c
  rw [h.stamped.stamps slot c]
  -- Every crossing ends such a chain, and for every such chain there is a crossing as near.
  refine isLeast_congr_of_dominated ?_ ?_
  · intro n hn
    obtain ⟨c, hc, hslot, rfl⟩ := hn
    obtain ⟨m, hm, hdepth⟩ := h.stamped.source hc
    exact ⟨c.source, m, c.entry, hfrontier.chain hm, h.stamped.row hc, hslot, hdepth⟩
  · intro n hn
    obtain ⟨u, m, entry, hchain, hentry, hslot, rfl⟩ := hn
    obtain ⟨k, hk, hle⟩ := h.at?_le_of_chain hqueue hchain
    obtain ⟨c, hc, rfl, hdepth⟩ := h.exists_crossing hqueue hk hentry
    exact ⟨c.depth, ⟨c, hc, hslot, rfl⟩, by omega⟩

/-- What is not at the root is one step farther than something else. -/
theorem Swept.exists_nearer {v n : Nat} (hv : s.distance.at? v = some (n + 1)) :
    ∃ u, s.distance.at? u = some n := by
  have hleast := (h.distance_least hqueue v (n + 1)).mp hv
  cases hleast.1 with
  | @snoc _ u _ hchain hstep =>
      obtain ⟨m, hm, hle⟩ := h.at?_le_of_chain hqueue hchain
      have hle' : n + 1 ≤ m + 1 :=
        hleast.2 ((((h.distance_least hqueue u m).mp hm).1).snoc hstep)
      obtain rfl : m = n := by omega
      exact ⟨u, hm⟩

/-- Something is at every distance up to one that occurs. -/
theorem Swept.exists_nodup {v n : Nat} (hv : s.distance.at? v = some n) :
    ∃ us : List Nat, us.length = n + 1 ∧ us.Nodup ∧
      ∀ u ∈ us, ∃ m ≤ n, s.distance.at? u = some m := by
  induction n generalizing v with
  | zero => exact ⟨[v], rfl, List.nodup_singleton v, by simpa using hv⟩
  | succ n ih =>
      obtain ⟨u, hu⟩ := h.exists_nearer hqueue hv
      -- All that the induction gives is nearer, so this node is not among it.
      obtain ⟨us, hlength, hnodup, hnear⟩ := ih hu
      refine ⟨v :: us, by rw [List.length_cons, hlength], List.nodup_cons.mpr ⟨?_, hnodup⟩, ?_⟩
      · intro hmem
        obtain ⟨m, hle, hm⟩ := hnear v hmem
        rw [hv, Option.some.injEq] at hm
        omega
      · intro w hw
        rcases List.mem_cons.mp hw with rfl | hw
        · exact ⟨n + 1, Nat.le_refl _, hv⟩
        · obtain ⟨m, hle, hm⟩ := hnear w hw
          exact ⟨m, Nat.le_succ_of_le hle, hm⟩

/-- Distances stay below the number of nodes. -/
theorem Swept.distance_lt {v n : Nat} (hv : s.distance.at? v = some n) : n < nodes := by
  obtain ⟨depth, hfrontier⟩ := h.frontier
  obtain ⟨us, hlength, hnodup, hnear⟩ := h.exists_nodup hqueue hv
  have hle := hfrontier.length_le hnodup fun u hu => by
    obtain ⟨m, -, hm⟩ := hnear u hu
    exact ⟨m, hm⟩
  rwa [hlength] at hle

end Done

/-- What a sweep that is run to its end comes to. -/
theorem run_start (hfits : a.Fits nodes links) (hroot : root < nodes) :
    ((start nodes links root).run a nodes).queue = [] ∧
      ∃ taken crossed,
        ((start nodes links root).run a nodes).Swept a nodes links root taken crossed := by
  have hstart : (start nodes links root).Swept a nodes links root [] [] := start_swept hroot
  obtain ⟨taken, crossed, hrun, -⟩ := hstart.run hfits nodes
  exact ⟨hstart.queue_run_eq_nil hfits (Nat.le_add_left _ _), taken, crossed, hrun⟩

end Sweep

end Precedent
