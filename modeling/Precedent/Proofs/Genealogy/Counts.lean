import Precedent.Proofs.Genealogy.Parents

/-!
# Precedent.Proofs.Genealogy.Counts

**Every opinion has a parent by one of the rules, or is isolated.** A row that has an entry has a
latest one, so an opinion is left without a parent only if both of its rows are empty. The counts of
the rules and of the orphans therefore add up to the number of opinions.
-/

namespace Precedent

/-! ### Counting in classes -/

/-- A thing is counted once for each of the classes that it belongs to. -/
theorem sum_map_ite_beq {κ : Type} [DecidableEq κ] (classes : List κ) (a : κ) :
    (classes.map fun k => if a == k then 1 else 0).sum = classes.count a := by
  induction classes with
  | nil => rfl
  | cons k rest ih => rw [List.map_cons, List.sum_cons, ih, List.count_cons, Nat.add_comm, BEq.comm]

/-- Some things counted in each of several different classes are those that have a class. -/
theorem sum_map_count {κ : Type} [DecidableEq κ] {classes : List κ} (h : classes.Nodup)
    (as : List κ) :
    (classes.map fun k => as.count k).sum = as.countP fun a => classes.contains a := by
  induction as with
  | nil => simp
  | cons a rest ih =>
      simp only [List.count_cons, List.sum_map_add]
      rw [ih, sum_map_ite_beq, h.count, List.countP_cons]
      simp only [List.contains_eq_mem, decide_eq_true_eq]

/-- What is there and what is missing make up a list. -/
theorem length_filterMap_id_add_count {α : Type} [DecidableEq α] (as : List (Option α)) :
    (as.filterMap id).length + as.count none = as.length := by
  induction as with
  | nil => rfl
  | cons a? rest ih =>
      cases a? with
      | none => simp [← ih, Nat.add_assoc]
      | some a => simp [← ih, Nat.add_right_comm]

/-! ### Parents -/

namespace Network

variable {g : Network} {node : Nat}

/-- An opinion has a latest neighbour unless its row is empty. -/
theorem latestNeighbour?_eq_none_iff {way : Way} :
    g.latestNeighbour? way node = none ↔ (g.adjacency way).row node = [] := by
  unfold latestNeighbour?
  dsimp only
  cases hfind : ((g.adjacency way).row node).reverse.find? fun entry =>
      (g.directionAt node).agrees (g.directionAt entry.1) with
  | some entry =>
      have hmem := List.mem_reverse.mp (List.mem_of_find?_eq_some hfind)
      simpa using List.ne_nil_of_mem hmem
  | none => simp

/-- An opinion without a latest authority cites no other one of the set. -/
theorem Drawn.not_cites_of_latestNeighbour?_eq_none (hg : g.Drawn) {other : Nat}
    (h : g.latestNeighbour? .cites node = none) : ¬ g.Cites node other := by
  have hrow : g.cites.row node = [] := latestNeighbour?_eq_none_iff.mp h
  intro hcites
  have hmem := hg.mem_row_cites.mpr ⟨hcites, rfl⟩
  rw [hrow] at hmem
  cases hmem

/-- An opinion is left without a parent if it is isolated. -/
theorem parentOf?_eq_none_iff : g.parentOf? node = none ↔ g.isIsolated node = true := by
  have hrows : g.isIsolated node = true ↔
      (g.adjacency .cites).row node = [] ∧ (g.adjacency .citedBy).row node = [] := by
    simp [isIsolated, outDegree, inDegree, Adjacency.degree, adjacency]
  rw [hrows, ← latestNeighbour?_eq_none_iff, ← latestNeighbour?_eq_none_iff]
  unfold parentOf?
  cases g.latestNeighbour? .cites node with
  | some entry => simp
  | none => simp

theorem toList_parents_genealogy (g : Network) :
    g.genealogy.parents.toList = (List.range g.size).map g.parentOf? := by
  rw [genealogy, Array.toList_ofFn]
  exact List.ext_getElem (by simp) fun i _ _ => by simp

theorem links_genealogy (g : Network) :
    g.genealogy.links = (List.range g.size).filterMap g.parentOf? := by
  rw [Genealogy.links, toList_parents_genealogy, List.filterMap_map]
  rfl

/-- The orphans are the isolated opinions. -/
theorem orphanCount_genealogy (g : Network) :
    g.genealogy.orphanCount = (List.range g.size).countP g.isIsolated := by
  rw [Genealogy.orphanCount, toList_parents_genealogy, List.count, List.countP_map]
  refine List.countP_congr fun node _ => ?_
  rw [Function.comp_apply, beq_iff_eq, parentOf?_eq_none_iff]

end Network

/-- Every parent was chosen by one rule. -/
theorem Genealogy.sum_ruleCounts (t : Genealogy) :
    (t.ruleCounts.map Prod.snd).sum = t.links.length := by
  have hall : ∀ rule, SelectionRule.all.contains rule = true := by
    intro rule
    cases rule <;> rfl
  have hclasses := sum_map_count (show SelectionRule.all.Nodup by decide)
    (t.links.map ParentLink.rule)
  simp only [hall, List.countP_true, List.length_map] at hclasses
  rw [ruleCounts, List.map_map, ← hclasses]
  refine congrArg List.sum (List.map_congr_left fun rule _ => ?_)
  rw [List.count, List.countP_map]
  rfl

/-- The rules and the orphans share out the opinions. -/
theorem Network.sum_ruleCounts_add_orphanCount (g : Network) :
    (g.genealogy.ruleCounts.map Prod.snd).sum + g.genealogy.orphanCount = g.size := by
  rw [Genealogy.sum_ruleCounts, Genealogy.links, Genealogy.orphanCount,
    length_filterMap_id_add_count, toList_parents_genealogy, List.length_map, List.length_range]

end Precedent
