import Precedent.Genealogy
import Precedent.Proofs.Network.LinkTable

/-!
# Precedent.Proofs.Genealogy.Parents

**A parent is joined to its child.** Whichever rule has chosen a parent, it has been found in a row
of its child, so one of the two cites the other, and the slot of the parent link is that of their
link.
-/

namespace Precedent

namespace Network

variable {g : Network} {way : Way} {node other slot child : Nat} {agrees : Bool} {p : ParentLink}

/-- The latest neighbour is the last entry of the row that agrees, or else the last entry. -/
theorem latestNeighbour?_cases (h : g.latestNeighbour? way node = some (other, slot, agrees)) :
    (agrees = true ∧ (((g.adjacency way).row node).reverse.find? fun entry =>
      (g.directionAt node).agrees (g.directionAt entry.1)) = some (other, slot)) ∨
    (agrees = false ∧ (((g.adjacency way).row node).reverse.find? fun entry =>
      (g.directionAt node).agrees (g.directionAt entry.1)) = none ∧
        ((g.adjacency way).row node).reverse.head? = some (other, slot)) := by
  unfold latestNeighbour? at h
  dsimp only at h
  cases hfind : ((g.adjacency way).row node).reverse.find? fun entry =>
      (g.directionAt node).agrees (g.directionAt entry.1) with
  | some entry =>
      rw [hfind] at h
      obtain ⟨rfl, rfl, rfl⟩ : entry.1 = other ∧ entry.2 = slot ∧ true = agrees := by simpa using h
      exact Or.inl ⟨rfl, rfl⟩
  | none =>
      rw [hfind] at h
      obtain ⟨entry, hentry, heq⟩ := Option.map_eq_some_iff.mp h
      obtain ⟨rfl, rfl, rfl⟩ : entry.1 = other ∧ entry.2 = slot ∧ false = agrees := by
        simpa using heq
      exact Or.inr ⟨rfl, rfl, hentry⟩

/-- The latest neighbour stands in the row. -/
theorem mem_row_of_latestNeighbour?
    (h : g.latestNeighbour? way node = some (other, slot, agrees)) :
    (other, slot) ∈ (g.adjacency way).row node := by
  rcases latestNeighbour?_cases h with ⟨-, hfind⟩ | ⟨-, -, hhead⟩
  · exact List.mem_reverse.mp (List.mem_of_find?_eq_some hfind)
  · exact List.mem_reverse.mp (List.mem_of_mem_head? hhead)

/-- The latest authority is cited. -/
theorem Drawn.cites_of_latestNeighbour? (hg : g.Drawn)
    (h : g.latestNeighbour? .cites node = some (other, slot, agrees)) : g.Cites node other :=
  (hg.mem_row_cites.mp (mem_row_of_latestNeighbour? h)).1

/-- A parent is the latest authority, or the latest citing opinion if there is no authority. -/
theorem parentOf?_cases (h : g.parentOf? child = some p) : p.child = child ∧
    ((∃ agrees, g.latestNeighbour? .cites child = some (p.parent, p.slot, agrees) ∧
      p.rule = if agrees then .sameDirectionAuthority else .latestAuthority) ∨
    (g.latestNeighbour? .cites child = none ∧ p.rule = .latestCitingCase ∧
      ∃ agrees, g.latestNeighbour? .citedBy child = some (p.parent, p.slot, agrees))) := by
  unfold parentOf? at h
  cases hcites : g.latestNeighbour? .cites child with
  | some entry =>
      obtain ⟨parent, slot, agrees⟩ := entry
      rw [hcites] at h
      obtain rfl := Option.some.inj h
      exact ⟨rfl, Or.inl ⟨agrees, rfl, rfl⟩⟩
  | none =>
      rw [hcites] at h
      obtain ⟨⟨parent, slot, agrees⟩, hcitedBy, rfl⟩ := Option.map_eq_some_iff.mp h
      exact ⟨rfl, Or.inr ⟨rfl, rfl, agrees, hcitedBy⟩⟩

/-- A parent is joined to its child, by the link at the slot. -/
theorem Drawn.joinsAt_of_parentOf? (hg : g.Drawn) (h : g.parentOf? child = some p) :
    p.child = child ∧ g.JoinsAt p.slot child p.parent := by
  obtain ⟨hchild, ⟨agrees, hcites, -⟩ | ⟨-, -, agrees, hcitedBy⟩⟩ := parentOf?_cases h
  · have hrow := hg.mem_row_cites.mp (mem_row_of_latestNeighbour? hcites)
    exact ⟨hchild, hg.joinsAt_iff.mpr (Or.inl hrow)⟩
  · have hrow := hg.mem_row_citedBy.mp (mem_row_of_latestNeighbour? hcitedBy)
    exact ⟨hchild, hg.joinsAt_iff.mpr (Or.inr hrow)⟩

theorem mem_links_genealogy :
    p ∈ g.genealogy.links ↔ ∃ child < g.size, g.parentOf? child = some p := by
  simp [Genealogy.links, genealogy, List.mem_ofFn, Fin.exists_iff]

theorem parentOf?_genealogy (h : node < g.size) : g.genealogy.parentOf? node = g.parentOf? node := by
  unfold Genealogy.parentOf? genealogy
  rw [Array.getElem?_ofFn, dif_pos h]
  rfl

theorem parentOf?_genealogy_eq_some_iff :
    g.genealogy.parentOf? node = some p ↔ node < g.size ∧ g.parentOf? node = some p := by
  by_cases hnode : node < g.size
  · rw [parentOf?_genealogy hnode, and_iff_right hnode]
  · unfold Genealogy.parentOf? genealogy
    rw [Array.getElem?_ofFn, dif_neg hnode]
    exact iff_of_false (by simp) fun h => hnode h.1

/-- The ends of a link are two opinions. -/
theorem Drawn.ne_of_joinsAt (hg : g.Drawn) {a b : Nat} (h : g.JoinsAt slot a b) : a ≠ b := by
  rcases hg.joinsAt_iff.mp h with ⟨hcites, -⟩ | ⟨hcites, -⟩
  · exact hcites.ne
  · exact hcites.ne.symm

theorem Drawn.lt_of_joinsAt (hg : g.Drawn) {a b : Nat} (h : g.JoinsAt slot a b) : a < g.size := by
  rcases hg.joinsAt_iff.mp h with ⟨hcites, -⟩ | ⟨hcites, -⟩
  · exact hcites.left_lt
  · exact hcites.right_lt

end Network

end Precedent
