import Mathlib.Order.Bounds.Basic
import Precedent.Proofs.Genealogy.Counts
import Precedent.Proofs.Network.Counts

/-!
# Precedent.Proofs.Genealogy.Preference

**Which opinion becomes the parent.** A row lists its neighbours in chronological order, so the first
one that is found from behind is the latest one. Searched for an opinion of a known direction, a row
gives the latest neighbour of that direction, and its last entry if there is none. The row of what
an opinion cites comes first, and the row of what cites it is asked only if the other one is empty;
an opinion has no parent only if both of them are.
-/

namespace Precedent

theorem Direction.agrees_iff {a b : Direction} : a.agrees b = true ↔ a ≠ .unknown ∧ a = b := by
  simp [agrees, isKnown]

/-- Among entries with increasing keys the first one from behind has the greatest key. -/
theorem isGreatest_of_find?_reverse {row : List (Nat × Nat)} {p : Nat → Bool} {entry : Nat × Nat}
    (hinc : (row.map Prod.fst).Pairwise (· < ·))
    (h : (row.reverse.find? fun e => p e.1) = some entry) :
    IsGreatest {key | key ∈ row.map Prod.fst ∧ p key = true} entry.1 := by
  obtain ⟨hentry, later, earlier, hsplit, hlater⟩ := List.find?_eq_some_iff_append.mp h
  obtain rfl : row = earlier.reverse ++ entry :: later.reverse := by
    rw [← row.reverse_reverse, hsplit]
    simp
  refine ⟨⟨by simp, hentry⟩, fun key hkey => ?_⟩
  obtain ⟨hmem, hp⟩ := hkey
  rw [List.map_append, List.map_cons] at hinc hmem
  rcases List.mem_append.mp hmem with hmem | hmem
  · exact ((List.pairwise_append.mp hinc).2.2 key hmem entry.1 (List.mem_cons_self ..)).le
  · rcases List.mem_cons.mp hmem with rfl | hmem
    · exact Nat.le_refl _
    · -- What stands behind the entry has been passed over.
      obtain ⟨e, he, rfl⟩ := List.mem_map.mp hmem
      have hnot := hlater e (List.mem_reverse.mp he)
      rw [hp] at hnot
      cases hnot

namespace Network

/-- Two opinions have the same direction, and it is known. -/
def SameDirection (g : Network) (i j : Nat) : Prop :=
  g.directionAt i ≠ .unknown ∧ g.directionAt i = g.directionAt j

/-- Of some opinions the latest one that has the direction of a given one; or the latest one, if
none of them has it. -/
inductive Prefers (g : Network) (i : Nat) (among : Set Nat) : Bool → Nat → Prop where
  | agreeing {j : Nat} :
      IsGreatest {j | j ∈ among ∧ g.SameDirection i j} j → Prefers g i among true j
  | latest {j : Nat} :
      (∀ j ∈ among, ¬ g.SameDirection i j) → IsGreatest among j → Prefers g i among false j

variable {g : Network} {way : Way} {i j slot : Nat} {agrees : Bool}

theorem agrees_directionAt_iff :
    (g.directionAt i).agrees (g.directionAt j) = true ↔ g.SameDirection i j := Direction.agrees_iff

/-- The latest neighbour is the one that is preferred among the neighbours. -/
theorem prefers_of_latestNeighbour? (h : g.latestNeighbour? way i = some (j, slot, agrees))
    (hinc : ((g.adjacency way).neighbours i).Pairwise (· < ·)) :
    g.Prefers i {j | j ∈ (g.adjacency way).neighbours i} agrees j := by
  rcases latestNeighbour?_cases h with ⟨rfl, hfind⟩ | ⟨rfl, hnone, hhead⟩
  · have hgreatest := isGreatest_of_find?_reverse
      (p := fun j => (g.directionAt i).agrees (g.directionAt j)) hinc hfind
    simp only [agrees_directionAt_iff] at hgreatest
    exact .agreeing hgreatest
  · refine .latest (fun j hj hsame => ?_) ?_
    · obtain ⟨slot, hentry⟩ := Adjacency.mem_neighbours.mp hj
      exact List.find?_eq_none.mp hnone _ (List.mem_reverse.mpr hentry)
        (agrees_directionAt_iff.mpr hsame)
    · -- The last entry is the first one from behind, whatever its direction.
      have hfind : (((g.adjacency way).row i).reverse.find? fun _ => true) = some (j, slot) := by
        rw [← hhead]
        cases ((g.adjacency way).row i).reverse <;> rfl
      have hgreatest := isGreatest_of_find?_reverse (p := fun _ => true) hinc hfind
      simp only [and_true] at hgreatest
      exact hgreatest

namespace Drawn

variable (hg : g.Drawn)
include hg

theorem prefers_cited (h : g.latestNeighbour? .cites i = some (j, slot, agrees)) :
    g.Prefers i {j | g.Cites i j} agrees j := by
  have hprefers := prefers_of_latestNeighbour? h (hg.pairwise_neighbours_cites i)
  simp only [adjacency, hg.mem_neighbours_cites] at hprefers
  exact hprefers

theorem prefers_citing (h : g.latestNeighbour? .citedBy i = some (j, slot, agrees)) :
    g.Prefers i {j | g.Cites j i} agrees j := by
  have hprefers := prefers_of_latestNeighbour? h (hg.pairwise_neighbours_citedBy i)
  simp only [adjacency, hg.mem_neighbours_citedBy] at hprefers
  exact hprefers

/-- An isolated opinion neither cites another one nor is cited. -/
theorem isIsolated_iff : g.isIsolated i = true ↔ ∀ j, ¬ g.Cites i j ∧ ¬ g.Cites j i := by
  rw [isIsolated, Bool.and_eq_true, beq_iff_eq, beq_iff_eq, hg.outDegree_eq, hg.inDegree_eq,
    List.length_eq_zero_iff, List.length_eq_zero_iff, List.eq_nil_iff_forall_not_mem,
    List.eq_nil_iff_forall_not_mem, ← forall_and]
  simp only [Citing.mem_cited, Citing.mem_citedBy, citing_iff]

end Drawn

/-- The parents of a genealogy are chosen by the rules. -/
structure SelectsParents (g : Network) (t : Genealogy) : Prop where
  size : t.parents.size = g.size
  /-- An opinion has a parent unless it is isolated. -/
  isSome_eq : ∀ i < g.size, (t.parentOf? i).isSome = !g.isIsolated i
  isIsolated_iff : ∀ i, g.isIsolated i = true ↔ ∀ j, ¬ g.Cites i j ∧ ¬ g.Cites j i
  /-- The slot of a parent link is that of the link between child and parent. -/
  link : ∀ i p, t.parentOf? i = some p → p.child = i ∧ g.linkBetween? i p.parent = some p.slot
  /-- The parent of an opinion that cites others is the preferred one of those. -/
  authority : ∀ i p, t.parentOf? i = some p → (∃ j, g.Cites i j) →
    ∃ agrees, g.Prefers i {j | g.Cites i j} agrees p.parent ∧
      p.rule = if agrees then .sameDirectionAuthority else .latestAuthority
  /-- The parent of an opinion that cites no other one is the preferred one of those that cite it.
  -/
  citingCase : ∀ i p, t.parentOf? i = some p → (∀ j, ¬ g.Cites i j) →
    (∃ agrees, g.Prefers i {j | g.Cites j i} agrees p.parent) ∧ p.rule = .latestCitingCase

/-- **Parents are chosen by the rules,** for every list of records that is accepted. -/
theorem ofRecords_selectsParents {records : List OpinionRecord} {g : Network}
    (h : ofRecords records = .ok g) : g.SelectsParents g.genealogy := by
  obtain ⟨-, hg⟩ := ofRecords_drawn h
  refine
    { size := Array.size_ofFn
      isSome_eq := ?_
      isIsolated_iff := fun _ => hg.isIsolated_iff
      link := ?_
      authority := ?_
      citingCase := ?_ }
  · intro i hi
    rw [parentOf?_genealogy hi]
    cases hparent : g.parentOf? i with
    | none => simp [parentOf?_eq_none_iff.mp hparent]
    | some p =>
        have hnot : g.isIsolated i ≠ true := fun hisolated => by
          rw [parentOf?_eq_none_iff.mpr hisolated] at hparent
          cases hparent
        simpa using hnot
  · intro i p hparent
    obtain ⟨hchild, hjoins⟩ :=
      hg.joinsAt_of_parentOf? (parentOf?_genealogy_eq_some_iff.mp hparent).2
    exact ⟨hchild, hg.linkBetween?_eq_some_iff.mpr hjoins⟩
  · intro i p hparent hexists
    obtain ⟨j, hcites⟩ := hexists
    obtain ⟨-, ⟨agrees, hcited, hrule⟩ | ⟨hnone, -, -⟩⟩ :=
      parentOf?_cases (parentOf?_genealogy_eq_some_iff.mp hparent).2
    · exact ⟨agrees, hg.prefers_cited hcited, hrule⟩
    · exact absurd hcites (hg.not_cites_of_latestNeighbour?_eq_none hnone)
  · intro i p hparent hnone
    obtain ⟨-, ⟨agrees, hcited, -⟩ | ⟨-, hrule, agrees, hciting⟩⟩ :=
      parentOf?_cases (parentOf?_genealogy_eq_some_iff.mp hparent).2
    · exact absurd (hg.cites_of_latestNeighbour? hcited) (hnone _)
    · exact ⟨⟨agrees, hg.prefers_citing hciting⟩, hrule⟩

/-- Five records, two of them conservative and two without a direction. The third and the fourth
cite all that came before them, the fifth is isolated. -/
def directedRecords : List OpinionRecord :=
  [{ OpinionRecord.new (.number 1) "1900-01-01" with decisionDirection := some 1 },
    OpinionRecord.new (.number 2) "1901-01-01",
    { OpinionRecord.new (.number 3) "1902-01-01" with
      decisionDirection := some 1, cited := .ofIds [.number 1, .number 2] },
    { OpinionRecord.new (.number 4) "1903-01-01" with
      cited := .ofIds [.number 1, .number 2, .number 3] },
    OpinionRecord.new (.number 5) "1904-01-01"]

/-- Direction comes before lateness both among the cited and among the citing opinions, but a
direction that is not known is the same as no other. -/
theorem directedRecords_selectsParents : ∃ g, ofRecords directedRecords = .ok g ∧
    g.genealogy.parents.toList.map (Option.map fun p => (p.parent, p.rule)) =
      [some (2, .latestCitingCase), some (3, .latestCitingCase),
        some (0, .sameDirectionAuthority), some (2, .latestAuthority), none] ∧
    g.SelectsParents g.genealogy := by
  obtain ⟨g, hok, hparents⟩ := exists_ok_of_map_toOption (x := ofRecords directedRecords)
    (f := fun g => g.genealogy.parents.toList.map (Option.map fun p => (p.parent, p.rule)))
    (b := [some (2, .latestCitingCase), some (3, .latestCitingCase),
        some (0, .sameDirectionAuthority), some (2, .latestAuthority), none]) (by cbv)
  exact ⟨g, hok, hparents, ofRecords_selectsParents hok⟩

end Network

end Precedent
