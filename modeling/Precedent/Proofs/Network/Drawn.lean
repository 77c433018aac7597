import Mathlib.Algebra.Module.Submodule.Lattice
import Mathlib.Computability.Primrec.List
import Mathlib.Computability.TuringMachine.StackTuringMachine
import Mathlib.Data.List.Permutation
import Mathlib.ModelTheory.Encoding
import Precedent.Proofs.Network.Register

/-!
# Precedent.Proofs.Network.Drawn

**A network that has been built, said by its citations.** `Network.Cites` reads off the stored
records who cites whom. Every network that is built from a list of records is drawn from that
relation (`ofRecords_drawn`), and a drawn network says of each of its rows what is in it. Whatever
else is to be said of a network goes by these lemmas and not by the way in which it is built.

Networks of sample records are evaluated by the equations of the functions involved, here and
further on. Some of these are the library's and stand in files about other things, which are
imported for that only.
-/

namespace Precedent

namespace Network

/-- One opinion of a network cites another one: its record names the identifier of the other. -/
def Cites (g : Network) (i j : Nat) : Prop :=
  i ≠ j ∧ ∃ a b, g.opinions[i]? = some a ∧ g.opinions[j]? = some b ∧ b.id ∈ a.record.cited.ids

/-- The relation of who cites whom in a network. -/
def citing (g : Network) : Citing := .ofOpinions g.opinions.toList

theorem size_citing (g : Network) : g.citing.size = g.size := Array.length_toList

theorem citing_iff {g : Network} {i j : Nat} : g.citing.cites i j = true ↔ g.Cites i j := by
  rw [citing, Citing.ofOpinions_cites_iff, Cites]
  simp only [Array.getElem?_toList]

/-- An identifier that no opinion has leads nowhere. -/
theorem indexOf?_eq_none_iff {g : Network} {id : OpinionId} :
    g.indexOf? id = none ↔ ∀ o ∈ g.opinions, o.id ≠ id := by
  simp [indexOf?, Array.findIdx?_eq_none_iff]

/-- The arrays of a network hold what its citations come to. -/
structure Drawn (g : Network) : Prop where
  wellPlaced : WellPlaced g.opinions.toList
  size_pos : 0 < g.size
  cites : g.cites = .ofRows ((List.range g.size).map g.citing.citedRow)
  citedBy : g.citedBy = .ofRows ((List.range g.size).map g.citing.citedByRow)
  links : g.links.toList = g.citing.links (Citing.idAt g.opinions.toList)

theorem ofOpinions_drawn {opinions : List Opinion} (h : WellPlaced opinions) (hne : opinions ≠ []) :
    (ofOpinions opinions).Drawn where
  wellPlaced := h
  size_pos := List.length_pos_of_ne_nil hne
  cites := cites_ofOpinions h
  citedBy := citedBy_ofOpinions h
  links := congrArg Array.toList (links_ofOpinions h)

/-- A network of records holds these records, and is drawn from their citations. -/
theorem ofRecords_drawn {records : List OpinionRecord} {g : Network}
    (h : ofRecords records = .ok g) :
    (g.opinions.toList.map Opinion.record).Perm records ∧ g.Drawn := by
  obtain ⟨filings, hproper, hrecords, hne, rfl⟩ := ofRecords_eq_ok h
  have hplaced : placed filings ≠ [] := by
    rw [← List.length_pos_iff, length_placed]
    exact List.length_pos_of_ne_nil hne
  exact ⟨hrecords ▸ records_placed filings, ofOpinions_drawn hproper.wellPlaced hplaced⟩

section Records

variable {records : List OpinionRecord} {g : Network} (h : ofRecords records = .ok g)
include h

theorem size_eq_length_records : g.size = records.length := by
  rw [← (ofRecords_drawn h).1.length_eq, List.length_map, Array.length_toList, size]

theorem record_mem_of_mem_opinions {o : Opinion} (ho : o ∈ g.opinions) : o.record ∈ records :=
  (ofRecords_drawn h).1.mem_iff.mp (List.mem_map_of_mem (Array.mem_def.mp ho))

/-- The date of an opinion is the one that its record names. -/
theorem parseDate_of_mem_opinions {o : Opinion} (ho : o ∈ g.opinions) :
    parseDate o.record.dateFiled = some o.date := by
  obtain ⟨filings, hproper, -, -, rfl⟩ := ofRecords_eq_ok h
  obtain ⟨i, hi⟩ := List.mem_iff_getElem?.mp (Array.mem_def.mp ho)
  change (placed filings)[i]? = some o at hi
  rw [getElem?_placed] at hi
  obtain ⟨f, hf, rfl⟩ := Option.map_eq_some_iff.mp hi
  exact hproper.date f ((chronological_perm filings).mem_iff.mp (List.mem_of_getElem? hf))

end Records

namespace Cites

variable {g : Network} {i j : Nat}

theorem ne (h : g.Cites i j) : i ≠ j := h.1

theorem left_lt (h : g.Cites i j) : i < g.size :=
  g.size_citing ▸ g.citing.left_lt (citing_iff.mpr h)

theorem right_lt (h : g.Cites i j) : j < g.size :=
  g.size_citing ▸ g.citing.right_lt (citing_iff.mpr h)

end Cites

namespace Drawn

variable {g : Network} (hg : g.Drawn) {i j slot : Nat}
include hg

/-! ### Rows -/

theorem row_cites (i : Nat) : g.cites.row i = g.citing.citedRow i := by
  by_cases h : i < g.size
  · rw [hg.cites, Adjacency.row_ofRows (by simpa using h), List.getElem_map, List.getElem_range]
  · rw [hg.cites, Adjacency.row_ofRows_of_le (by simpa using h),
      Citing.citedRow_of_le (g.size_citing ▸ Nat.le_of_not_lt h)]

theorem row_citedBy (j : Nat) : g.citedBy.row j = g.citing.citedByRow j := by
  by_cases h : j < g.size
  · rw [hg.citedBy, Adjacency.row_ofRows (by simpa using h), List.getElem_map, List.getElem_range]
  · rw [hg.citedBy, Adjacency.row_ofRows_of_le (by simpa using h),
      Citing.citedByRow_of_le (g.size_citing ▸ Nat.le_of_not_lt h)]

/-- An entry of a row is a citation with the slot of its link. -/
theorem mem_row_cites : (j, slot) ∈ g.cites.row i ↔ g.Cites i j ∧ slot = g.citing.slot i j := by
  rw [hg.row_cites, Citing.mem_citedRow, citing_iff]

/-- An entry of a reverse row is a citation with the slot of its link. -/
theorem mem_row_citedBy : (i, slot) ∈ g.citedBy.row j ↔ g.Cites i j ∧ slot = g.citing.slot i j := by
  rw [hg.row_citedBy, Citing.mem_citedByRow, citing_iff]

theorem mem_neighbours_cites : j ∈ g.cites.neighbours i ↔ g.Cites i j := by
  simp only [Adjacency.mem_neighbours, hg.mem_row_cites, exists_and_left, exists_eq, and_true]

theorem mem_neighbours_citedBy : i ∈ g.citedBy.neighbours j ↔ g.Cites i j := by
  simp only [Adjacency.mem_neighbours, hg.mem_row_citedBy, exists_and_left, exists_eq, and_true]

theorem pairwise_neighbours_cites (i : Nat) : (g.cites.neighbours i).Pairwise (· < ·) := by
  rw [Adjacency.neighbours, hg.row_cites]
  exact Citing.pairwise_citedRow

theorem pairwise_neighbours_citedBy (j : Nat) : (g.citedBy.neighbours j).Pairwise (· < ·) := by
  rw [Adjacency.neighbours, hg.row_citedBy]
  exact Citing.pairwise_citedByRow

/-! ### Links -/

theorem linkCount_eq : g.linkCount = g.citing.openings.length := by
  rw [linkCount, ← Array.length_toList, hg.links, Citing.links, Citing.length_linksAfter,
    Citing.openings]

/-- The slot of a citation is that of a link. -/
theorem slot_lt (h : g.Cites i j) : g.citing.slot i j < g.linkCount := by
  rw [hg.linkCount_eq]
  exact Citing.slot_lt_length (citing_iff.mpr h)

/-! ### Lookups -/

/-- The lookup of a citation finds the slot of its link. -/
theorem slot?_cites_eq_some_iff :
    g.cites.slot? i j = some slot ↔ g.Cites i j ∧ slot = g.citing.slot i j := by
  by_cases h : i < g.size
  · rw [← citing_iff, ← Citing.mem_citedRow, hg.cites, Adjacency.slot?_ofRows_eq_some_iff
      (by simpa using h) (by simpa using Citing.pairwise_citedRow), List.getElem_map,
      List.getElem_range]
  · -- Behind the last row nothing is found, and nothing is cited from there.
    rw [hg.cites, Adjacency.slot?_ofRows_of_le (by simpa using h)]
    exact iff_of_false (by simp) fun hcites => h hcites.1.left_lt

theorem hasCitation_iff : g.hasCitation i j = true ↔ g.Cites i j := by
  by_cases h : i < g.size
  · rw [← hg.mem_neighbours_cites, Adjacency.neighbours, hg.row_cites, hasCitation, hg.cites,
      Adjacency.joins_ofRows_iff (by simpa using h) (by simpa using Citing.pairwise_citedRow),
      List.getElem_map, List.getElem_range]
  · rw [hasCitation, hg.cites, Adjacency.joins_ofRows_of_le (by simpa using h)]
    exact iff_of_false (by simp) fun hcites => h hcites.left_lt

/-- An identifier leads to the place of the opinion that has it. -/
theorem indexOf?_eq_some_iff {id : OpinionId} : g.indexOf? id = some i ↔ g.idAt? i = some id := by
  rw [indexOf?, Array.findIdx?_eq_some_iff_getElem, idAt?, Option.map_eq_some_iff]
  constructor
  · intro h
    obtain ⟨hi, hid, -⟩ := h
    exact ⟨_, Array.getElem?_eq_getElem hi, beq_iff_eq.mp hid⟩
  · intro h
    obtain ⟨o, ho, rfl⟩ := h
    obtain ⟨hi, rfl⟩ := Array.getElem?_eq_some_iff.mp ho
    refine ⟨hi, beq_self_eq_true _, fun j hji hid => ?_⟩
    -- An opinion at an earlier place would have to be the same one.
    have hj := hg.wellPlaced.index_eq (i := j)
      (Array.getElem?_toList.trans (Array.getElem?_eq_getElem (hji.trans hi)))
    have hi' := hg.wellPlaced.index_eq (Array.getElem?_toList.trans ho)
    have heq := hg.wellPlaced.eq_of_id (Array.getElem_mem_toList _) (Array.getElem_mem_toList _)
      (beq_iff_eq.mp hid)
    rw [heq, hi'] at hj
    omega

end Drawn

end Network

/-! ### A network with loops -/

/-- Five records, the first of the earliest opinion and the last of the latest one. The third
opinion and both of its neighbours cite each other, and the fourth cites the second as well; the
fifth names itself and an opinion that is not in the set. -/
def fiveRecords : List OpinionRecord :=
  [{ OpinionRecord.new (.number 1) "1900-01-01" with cited := .ofIds [] },
    { OpinionRecord.new (.number 2) "1901-01-01" with cited := .ofIds [.number 1, .number 3] },
    { OpinionRecord.new (.number 3) "1902-01-01" with cited := .ofIds [.number 2, .number 4] },
    { OpinionRecord.new (.number 4) "1903-01-01" with cited := .ofIds [.number 2, .number 3] },
    { OpinionRecord.new (.number 5) "1904-01-01" with
      cited := .ofIds [.number 4, .number 5, .number 9] }]

/-- A computation that yields a value succeeds, and its result has the value. -/
theorem exists_ok_of_map_toOption {ε α β : Type} {x : Except ε α} {f : α → β} {b : β}
    (h : x.toOption.map f = some b) : ∃ a, x = .ok a ∧ f a = b := by
  cases x with
  | error e => cases h
  | ok a => exact ⟨a, rfl, Option.some.inj h⟩

end Precedent
