import Precedent.Proofs.Network.Drawn

/-!
# Precedent.Proofs.Network.Counts

**How many citations there are, counted in several ways.** Every citation that a record makes leads
to another opinion of the set, to the opinion itself, or out of the set, and it is counted as one of
the three. Those of the first kind are the entries of the rows, in both directions, and each of them
has opened a link or has been folded into the link of its reverse.
-/

namespace Precedent

/-! ### The citations of one opinion -/

namespace Resolution

variable {opinions : List Opinion} {o : Opinion}

/-- One more identifier is counted once, whatever it leads to. -/
theorem count_resolve (r : Resolution) (id : OpinionId) :
    (resolve opinions o r id).dangling + (resolve opinions o r id).ofSelf +
      (resolve opinions o r id).cited.length = r.dangling + r.ofSelf + r.cited.length + 1 := by
  unfold resolve
  cases opinions.find? fun b => b.id == id with
  | none =>
      dsimp only
      omega
  | some b =>
      dsimp only
      by_cases hself : b.index = o.index
      · rw [if_pos hself]
        dsimp only
        omega
      · rw [if_neg hself, List.length_append, List.length_singleton]
        dsimp only
        omega

theorem count_foldl (ids : List OpinionId) (r : Resolution) :
    (ids.foldl (resolve opinions o) r).dangling + (ids.foldl (resolve opinions o) r).ofSelf +
      (ids.foldl (resolve opinions o) r).cited.length =
        r.dangling + r.ofSelf + r.cited.length + ids.length := by
  induction ids generalizing r with
  | nil => rfl
  | cons id rest ih =>
      rw [List.foldl_cons, ih, count_resolve, List.length_cons]
      omega

/-- Every citation of an opinion is counted once. -/
theorem count_of (opinions : List Opinion) (o : Opinion) :
    (of opinions o).dangling + (of opinions o).ofSelf + (of opinions o).cited.length =
      o.record.cited.ids.length := by
  rw [of, count_foldl]
  simp [empty]

/-- The row of an opinion has an entry for each citation that leads to another opinion. -/
theorem length_cited_of (h : WellPlaced opinions) {i : Nat} (ho : opinions[i]? = some o) :
    ((Citing.ofOpinions opinions).cited i).length = (of opinions o).cited.length := by
  rw [← targets_of h ho, List.length_map, targets_of_eq_mergeSort h, List.length_mergeSort]

end Resolution

/-! ### Counting by indices -/

/-- A list is gone through by its indices. -/
theorem map_range_eq_map {α β : Type} {l : List α} {f : Nat → β} {f' : α → β}
    (h : ∀ i a, l[i]? = some a → f i = f' a) : (List.range l.length).map f = l.map f' := by
  refine List.ext_getElem (by simp) fun i hi _ => ?_
  have hlt : i < l.length := by simpa using hi
  rw [List.getElem_map, List.getElem_map, List.getElem_range]
  exact h i _ (List.getElem?_eq_getElem hlt)

/-- How many indices have a property, said of what stands there. -/
theorem countP_range_eq_countP {α : Type} {l : List α} {p : Nat → Bool} {p' : α → Bool}
    (h : ∀ i a, l[i]? = some a → p i = p' a) : (List.range l.length).countP p = l.countP p' := by
  have hmap := congrArg (List.countP id) (map_range_eq_map h)
  rwa [List.countP_map, List.countP_map] at hmap

/-! ### Citations and links -/

namespace Citing

variable {c : Citing}

theorem length_citations (c : Citing) :
    c.citations.length = ((List.range c.size).map fun i => (c.cited i).length).sum := by
  rw [citations, List.length_flatMap]
  simp only [citationsOf, List.length_map]

/-- A citation opens a link or is folded into one. -/
theorem length_openings_add (c : Citing) :
    c.openings.length + (c.citations.countP fun e => !c.opens e) = c.citations.length := by
  have hsplit := List.length_eq_countP_add_countP c.opens (l := c.citations)
  simp only [Bool.not_eq_true, Bool.decide_eq_false] at hsplit
  rw [openings, ← List.countP_eq_length_filter, hsplit]

/-- Of two citations that are each other's reverse, one opens a link if the other does not. -/
theorem not_opens_iff {i j : Nat} : (c.cites i j = true ∧ (!c.opens (i, j)) = true) ↔
    (j, i) ∈ c.openings ∧ c.cites i j = true := by
  rw [mem_openings, Bool.not_eq_true', ← Bool.not_eq_true, opens_iff]
  constructor
  · intro h
    obtain ⟨hij, hnot⟩ := h
    push Not at hnot
    exact ⟨⟨hnot.1, fun _ => Nat.le_of_lt hnot.2⟩, hij⟩
  · intro h
    obtain ⟨⟨hji, hle⟩, hij⟩ := h
    have hne := c.ne hij
    exact ⟨hij, fun himp => hne (Nat.le_antisymm (himp hji) (hle hij))⟩

/-- The citations that are folded are the reverses of the opening citations of mutual links. -/
theorem countP_not_opens (c : Citing) : (c.citations.countP fun e => !c.opens e) =
    c.openings.countP fun e => c.cites e.2 e.1 := by
  have hswap : ((c.openings.filter fun e => c.cites e.2 e.1).map Prod.swap).length =
      (c.openings.filter fun e => c.cites e.2 e.1).length := List.length_map ..
  rw [List.countP_eq_length_filter, List.countP_eq_length_filter, ← hswap]
  refine List.Perm.length_eq ((List.perm_ext_iff_of_nodup (c.nodup_citations.filter _)
    ((c.nodup_openings.filter _).map Prod.swap_injective)).mpr fun e => ?_)
  obtain ⟨i, j⟩ := e
  rw [List.mem_filter, mem_citations, not_opens_iff, List.mem_map]
  constructor
  · intro h
    exact ⟨(j, i), List.mem_filter.mpr h, rfl⟩
  · intro h
    obtain ⟨⟨j', i'⟩, hmem, heq⟩ := h
    obtain ⟨rfl, rfl⟩ := Prod.mk.inj heq
    exact List.mem_filter.mp hmem

end Citing

/-! ### The counts of a network -/

namespace Network

variable {g : Network}

namespace Drawn

variable (hg : g.Drawn) {i : Nat} {o : Opinion}
include hg

theorem outDegree_eq (i : Nat) : g.outDegree i = (g.citing.cited i).length := by
  rw [outDegree, Adjacency.degree, hg.row_cites, Citing.citedRow, List.length_map]

theorem inDegree_eq (i : Nat) : g.inDegree i = (g.citing.citedBy i).length := by
  rw [inDegree, Adjacency.degree, hg.row_citedBy, Citing.citedByRow, List.length_map]

theorem citationCount_eq_length : g.citationCount = g.citing.citations.length := by
  rw [citationCount, hg.cites, Adjacency.size_ofRows, List.length_flatten, List.map_map,
    Citing.length_citations, size_citing]
  simp only [Function.comp_def, Citing.citedRow, List.length_map]

/-- Every citation is in the row of its citing opinion. -/
theorem sum_outDegree : ((List.range g.size).map g.outDegree).sum = g.citationCount := by
  rw [hg.citationCount_eq_length, Citing.length_citations, size_citing]
  simp only [← hg.outDegree_eq]

/-- Every citation is in the reverse row of its cited opinion. -/
theorem sum_inDegree : ((List.range g.size).map g.inDegree).sum = g.citationCount := by
  have hcount := g.citing.length_flatten_citedByRow
  rw [size_citing] at hcount
  rw [citationCount, hg.cites, Adjacency.size_ofRows, ← hcount, List.length_flatten, List.map_map]
  refine congrArg List.sum (List.map_congr_left fun j _ => ?_)
  rw [inDegree, Adjacency.degree, hg.row_citedBy, Function.comp_apply]

theorem linkCount_le : g.linkCount ≤ g.citationCount := by
  rw [hg.linkCount_eq, hg.citationCount_eq_length, Citing.openings]
  exact List.length_filter_le _ _

/-- A link is flagged as mutual if the reverse of its opening citation is there. -/
theorem countP_isMutual : g.links.toList.countP Link.isMutual =
    g.citing.openings.countP fun e => g.citing.cites e.2 e.1 := by
  rw [hg.links, Citing.links, Citing.linksAfter, List.countP_map, Citing.openings]
  refine List.countP_congr fun e _ => ?_
  rw [Function.comp_apply, Citing.linkAfter, decide_eq_true_iff, Citing.mem_citations]

/-- What an opinion cites of the other opinions has been found among its citations. -/
theorem outDegree_eq_length_cited (ho : g.opinions[i]? = some o) :
    g.outDegree i = (Resolution.of g.opinions.toList o).cited.length := by
  rw [← Array.getElem?_toList] at ho
  rw [hg.outDegree_eq, citing, Resolution.length_cited_of hg.wellPlaced ho]

/-- Opinions at different places have different identifiers. -/
theorem bne_id_eq {j : Nat} {a : Opinion} (ha : g.opinions[j]? = some a)
    (ho : g.opinions[i]? = some o) : (a.id != o.id) = (j != i) := by
  rw [← Array.getElem?_toList] at ha ho
  rw [Bool.eq_iff_iff, bne_iff_ne, bne_iff_ne, not_iff_not]
  constructor
  · intro hid
    rw [← hg.wellPlaced.index_eq ha, ← hg.wellPlaced.index_eq ho,
      hg.wellPlaced.eq_of_id (List.mem_of_getElem? ha) (List.mem_of_getElem? ho) hid]
  · rintro rfl
    rw [Option.some.inj (ha.symm.trans ho)]

/-- How many opinions cite an opinion, counted among all of them. -/
theorem inDegree_eq_countP (ho : g.opinions[i]? = some o) :
    g.inDegree i = g.opinions.toList.countP fun a => a.id != o.id && a.record.cited.cites o.id := by
  rw [hg.inDegree_eq, Citing.citedBy, ← List.countP_eq_length_filter]
  refine countP_range_eq_countP fun j a ha => ?_
  rw [Array.getElem?_toList] at ha
  simp [citing, Citing.ofOpinions, ha, ho, hg.bne_id_eq ha ho]

/-- How many opinions an opinion cites, counted among its citations. -/
theorem outDegree_eq_countP (ho : g.opinions[i]? = some o) :
    g.outDegree i = o.record.cited.ids.countP fun id =>
      g.opinions.toList.any fun a => a.id == id && a.id != o.id := by
  rw [hg.outDegree_eq_length_cited ho, Resolution.cited_of, ← List.countP_eq_length_filter,
    List.countP_filterMap]
  refine List.countP_congr fun id _ => ?_
  have hother : ∀ a ∈ g.opinions.toList, (a.id != o.id) = (a.index != o.index) := by
    intro a ha
    have hindex := hg.wellPlaced.getElem?_index ha
    rw [Array.getElem?_toList] at hindex
    rw [hg.bne_id_eq hindex ho, ← hg.wellPlaced.index_eq (Array.getElem?_toList.trans ho)]
  rw [List.any_eq_true]
  constructor
  · intro hfound
    cases hfind : g.opinions.toList.find? fun a => a.id == id with
    | none => simp [hfind] at hfound
    | some a =>
        obtain ⟨ha, rfl⟩ := hg.wellPlaced.find?_eq_some_iff.mp hfind
        rw [hfind] at hfound
        exact ⟨a, ha, by rw [hother a ha, beq_self_eq_true, Bool.true_and]; exact hfound⟩
  · intro hamong
    obtain ⟨a, ha, hboth⟩ := hamong
    rw [Bool.and_eq_true, beq_iff_eq, hother a ha] at hboth
    rw [hg.wellPlaced.find?_eq_some_iff.mpr ⟨ha, hboth.1⟩]
    exact hboth.2

end Drawn

/-- The counts that a network keeps agree with what it stores. -/
structure Tallied (g : Network) : Prop where
  /-- A citation leads out of the set, to the opinion itself, or to another opinion. -/
  citations : (g.opinions.toList.map fun o => o.record.cited.ids.length).sum =
    g.tally.dangling + g.tally.ofSelf + g.citationCount
  folded : g.tally.folded = g.citing.citations.countP fun e => !g.citing.opens e

theorem foldl_add_eq_sum {α : Type} (f : α → Nat) (as : List α) :
    as.foldl (fun total a => total + f a) 0 = (as.map f).sum := by
  rw [List.sum_eq_foldl, List.foldl_map]

theorem ofOpinions_tallied {opinions : List Opinion} (h : WellPlaced opinions)
    (hne : opinions ≠ []) : (ofOpinions opinions).Tallied where
  citations := by
    have hg := ofOpinions_drawn h hne
    have hentries : (ofOpinions opinions).citationCount =
        (opinions.map fun o => (Resolution.of opinions o).cited.length).sum := by
      rw [← hg.sum_outDegree]
      refine congrArg List.sum (map_range_eq_map (l := opinions) fun i o ho => ?_)
      exact hg.outDegree_eq_length_cited (by rwa [← Array.getElem?_toList])
    have hdangling : (ofOpinions opinions).tally.dangling =
        (opinions.map fun o => (Resolution.of opinions o).dangling).sum :=
      (foldl_add_eq_sum Resolution.dangling _).trans (congrArg List.sum List.map_map)
    have hofSelf : (ofOpinions opinions).tally.ofSelf =
        (opinions.map fun o => (Resolution.of opinions o).ofSelf).sum :=
      (foldl_add_eq_sum Resolution.ofSelf _).trans (congrArg List.sum List.map_map)
    rw [hentries, hdangling, hofSelf, ← List.sum_map_add, ← List.sum_map_add]
    exact congrArg List.sum (List.map_congr_left fun o _ => (Resolution.count_of opinions o).symm)
  folded := folded_ofOpinions h

theorem ofRecords_tallied {records : List OpinionRecord} (h : ofRecords records = .ok g) :
    g.Tallied := by
  obtain ⟨filings, hproper, -, hne, rfl⟩ := ofRecords_eq_ok h
  refine ofOpinions_tallied hproper.wellPlaced ?_
  rw [← List.length_pos_iff, length_placed]
  exact List.length_pos_of_ne_nil hne

section Records

variable {records : List OpinionRecord} (h : ofRecords records = .ok g)
include h

/-- Every citation that is listed is counted once. -/
theorem tally_add_citationCount : g.tally.dangling + g.tally.ofSelf + g.citationCount =
    (records.map fun r => r.cited.entries.length).sum := by
  rw [← (ofRecords_tallied h).citations, ← ((ofRecords_drawn h).1.map _).sum_eq, List.map_map]
  simp [Function.comp_def, Citations.ids]

/-- The two citations of a mutual link share it. -/
theorem linkCount_add_folded : g.linkCount + g.tally.folded = g.citationCount := by
  have hg := (ofRecords_drawn h).2
  rw [(ofRecords_tallied h).folded, hg.linkCount_eq, hg.citationCount_eq_length,
    Citing.length_openings_add]

end Records

end Network

end Precedent
