import Precedent.Proofs.Network.Crossings
import Precedent.Proofs.Network.Loops

/-!
# Precedent.Proofs.Network.Widening

**One more opinion that is not connected to the others.** It takes a place in the chronological
order, and all opinions behind it move up by one. Nothing else changes: the opinions that were there
cite each other as before, so their rows, the order of the citations and with it the slots of the
links are the same, only written with the new indices (`shiftPast`). A chain of citations never
comes by the new opinion, so what is said in terms of chains, the distances, depths and loops, stays
as it is. For the two roots to stay the same opinions, the new one must be neither first nor last.
-/

namespace Precedent

/-! ### Indices and a new place -/

/-- Where an index comes to stand when an element is put in at a place. -/
def shiftPast (place i : Nat) : Nat := if i < place then i else i + 1

section Shift

variable {place i j n : Nat}

theorem shiftPast_of_lt (h : i < place) : shiftPast place i = i := if_pos h

theorem shiftPast_of_le (h : place ≤ i) : shiftPast place i = i + 1 := if_neg (Nat.not_lt_of_le h)

theorem shiftPast_ne (place i : Nat) : shiftPast place i ≠ place := by
  unfold shiftPast
  split <;> omega

theorem shiftPast_lt_shiftPast_iff : shiftPast place i < shiftPast place j ↔ i < j := by
  unfold shiftPast
  split <;> split <;> omega

theorem shiftPast_injective (place : Nat) : Function.Injective (shiftPast place) :=
  StrictMono.injective fun _ _ => shiftPast_lt_shiftPast_iff.mpr

/-- Every index but that of the new element is one that was there before. -/
theorem exists_shiftPast_eq (h : j ≠ place) : ∃ i, shiftPast place i = j := by
  rcases Nat.lt_or_gt_of_ne h with hlt | hgt
  · exact ⟨j, shiftPast_of_lt hlt⟩
  · obtain ⟨i, rfl⟩ := Nat.exists_eq_add_of_lt hgt
    exact ⟨place + i, shiftPast_of_le (Nat.le_add_right ..)⟩

theorem shiftPast_lt_iff (h : place ≤ n) : shiftPast place i < n + 1 ↔ i < n := by
  unfold shiftPast
  split <;> omega

/-- Without the new element the indices are those from before. -/
theorem filter_ne_range (h : place ≤ n) :
    (List.range (n + 1)).filter (· != place) = (List.range n).map (shiftPast place) := by
  refine List.Pairwise.eq_of_mem_iff (r := (· < ·)) (List.pairwise_lt_range.filter _) ?_ fun j => ?_
  · exact List.pairwise_map.mpr (List.pairwise_lt_range.imp shiftPast_lt_shiftPast_iff.mpr)
  · rw [List.mem_filter, List.mem_range, bne_iff_ne, List.mem_map]
    constructor
    · intro hboth
      obtain ⟨i, rfl⟩ := exists_shiftPast_eq hboth.2
      exact ⟨i, List.mem_range.mpr ((shiftPast_lt_iff h).mp hboth.1), rfl⟩
    · intro hmem
      obtain ⟨i, hi, rfl⟩ := hmem
      exact ⟨(shiftPast_lt_iff h).mpr (List.mem_range.mp hi), shiftPast_ne place i⟩

/-- What is drawn from all indices but the new one is drawn from those from before. -/
theorem filterMap_range_succ {α : Type} {f : Nat → Option α} (h : place ≤ n) (hf : f place = none) :
    (List.range (n + 1)).filterMap f = (List.range n).filterMap (f ∘ shiftPast place) := by
  rw [← List.filterMap_map, ← filter_ne_range h, List.filterMap_filter]
  refine List.filterMap_congr fun i _ => ?_
  by_cases hi : i = place
  · rw [hi, hf, ite_self]
  · rw [if_pos (bne_iff_ne.mpr hi)]

theorem filter_range_succ {p : Nat → Bool} (h : place ≤ n) (hp : p place = false) :
    (List.range (n + 1)).filter p =
      ((List.range n).filter (p ∘ shiftPast place)).map (shiftPast place) := by
  rw [← List.filter_map, ← filter_ne_range h, List.filter_filter]
  refine List.filter_congr fun i _ => ?_
  by_cases hi : i = place
  · rw [hi, hp, Bool.false_and]
  · rw [bne_iff_ne.mpr hi, Bool.and_true]

end Shift

/-! ### Citations with the new indices -/

namespace Citing

/-- One more opinion at a place, which neither cites nor is cited. -/
structure Widens (place : Nat) (c c' : Citing) : Prop where
  size : c'.size = c.size + 1
  le : place ≤ c.size
  /-- The opinions that were there cite each other as before. -/
  cites : ∀ i j, c'.cites (shiftPast place i) (shiftPast place j) = c.cites i j
  apart : ∀ {i j}, c'.cites i j = true → i ≠ place ∧ j ≠ place

/-- A citation with the new indices of its ends. -/
abbrev shiftCitation (place : Nat) (e : Nat × Nat) : Nat × Nat :=
  (shiftPast place e.1, shiftPast place e.2)

theorem before_shiftCitation_iff {place : Nat} {e f : Nat × Nat} :
    Before (shiftCitation place e) (shiftCitation place f) ↔ Before e f := by
  simp only [Before, Prod.lex_def, shiftPast_lt_shiftPast_iff, (shiftPast_injective place).eq_iff]

theorem shiftCitation_injective (place : Nat) : Function.Injective (shiftCitation place) := by
  intro e f heq
  obtain ⟨h, h'⟩ := Prod.mk.inj heq
  exact Prod.ext (shiftPast_injective place h) (shiftPast_injective place h')

instance : Std.Irrefl Before := ⟨not_before_self⟩

instance : Std.Antisymm Before where
  antisymm e f h h' := by
    rcases Prod.lex_def.mp h with hlt | ⟨-, hlt⟩ <;>
      rcases Prod.lex_def.mp h' with hgt | ⟨heq, hgt⟩ <;> omega

namespace Widens

variable {place i j slot : Nat} {c c' : Citing} (h : c.Widens place c')
include h

theorem exists_of_cites (hcites : c'.cites i j = true) :
    ∃ i₀ j₀, shiftPast place i₀ = i ∧ shiftPast place j₀ = j ∧ c.cites i₀ j₀ = true := by
  obtain ⟨hi, hj⟩ := h.apart hcites
  obtain ⟨i₀, rfl⟩ := exists_shiftPast_eq hi
  obtain ⟨j₀, rfl⟩ := exists_shiftPast_eq hj
  exact ⟨i₀, j₀, rfl, rfl, h.cites i₀ j₀ ▸ hcites⟩

theorem cites_place (j : Nat) : c'.cites place j = false := by
  rw [← Bool.not_eq_true]
  exact fun hcites => (h.apart hcites).1 rfl

theorem cites_of_place (i : Nat) : c'.cites i place = false := by
  rw [← Bool.not_eq_true]
  exact fun hcites => (h.apart hcites).2 rfl

/-! #### Rows -/

theorem cited_shiftPast (i : Nat) :
    c'.cited (shiftPast place i) = (c.cited i).map (shiftPast place) := by
  rw [cited, h.size, filter_range_succ h.le (h.cites_of_place _)]
  exact congrArg (List.map _) (List.filter_congr fun j _ => h.cites i j)

theorem citedBy_shiftPast (j : Nat) :
    c'.citedBy (shiftPast place j) = (c.citedBy j).map (shiftPast place) := by
  rw [citedBy, h.size, filter_range_succ (p := fun i => c'.cites i _) h.le (h.cites_place _)]
  exact congrArg (List.map _) (List.filter_congr fun i _ => h.cites i j)

/-! #### The order of citations -/

/-- The citations come in the same order. -/
theorem citations_eq : c'.citations = c.citations.map (shiftCitation place) := by
  refine List.Pairwise.eq_of_mem_iff (r := Before) c'.pairwise_citations ?_ fun e => ?_
  · exact List.pairwise_map.mpr (c.pairwise_citations.imp before_shiftCitation_iff.mpr)
  · rw [mem_citations, List.mem_map]
    constructor
    · intro hcites
      obtain ⟨i, j, hi, hj, hcites⟩ := h.exists_of_cites hcites
      exact ⟨(i, j), mem_citations.mpr hcites, Prod.ext hi hj⟩
    · intro hmem
      obtain ⟨⟨i, j⟩, hmem, rfl⟩ := hmem
      exact (h.cites i j).trans (mem_citations.mp hmem)

theorem opens_shiftCitation (e : Nat × Nat) : c'.opens (shiftCitation place e) = c.opens e := by
  simp only [opens, h.cites, shiftPast_lt_shiftPast_iff]

theorem openings_eq : c'.openings = c.openings.map (shiftCitation place) := by
  rw [openings, h.citations_eq, List.filter_map, openings]
  exact congrArg (List.map _) (List.filter_congr fun e _ => h.opens_shiftCitation e)

theorem opening_shiftPast (i j : Nat) :
    c'.opening (shiftPast place i) (shiftPast place j) = shiftCitation place (c.opening i j) := by
  unfold opening
  rw [h.opens_shiftCitation (i, j)]
  split <;> rfl

/-- The link of a citation keeps its slot. -/
theorem slot_shiftPast (hcites : c.cites i j = true) :
    c'.slot (shiftPast place i) (shiftPast place j) = c.slot i j := by
  have hat := c'.getElem?_slot ((h.cites i j).trans hcites)
  rw [h.opening_shiftPast, h.openings_eq, List.getElem?_map, Option.map_eq_some_iff] at hat
  obtain ⟨e, he, heq⟩ := hat
  obtain rfl := shiftCitation_injective place heq
  obtain ⟨hlt, heq⟩ := List.getElem?_eq_some_iff.mp he
  show _ = c.openings.idxOf (c.opening i j)
  rw [← heq, c.nodup_openings.idxOf_getElem]

theorem citedRow_shiftPast (i : Nat) : c'.citedRow (shiftPast place i) =
    (c.citedRow i).map fun entry => (shiftPast place entry.1, entry.2) := by
  rw [citedRow, h.cited_shiftPast, citedRow, List.map_map, List.map_map]
  refine List.map_congr_left fun j hj => ?_
  simp only [Function.comp_apply, h.slot_shiftPast (mem_cited.mp hj)]

theorem citedByRow_shiftPast (j : Nat) : c'.citedByRow (shiftPast place j) =
    (c.citedByRow j).map fun entry => (shiftPast place entry.1, entry.2) := by
  rw [citedByRow, h.citedBy_shiftPast, citedByRow, List.map_map, List.map_map]
  refine List.map_congr_left fun i hi => ?_
  simp only [Function.comp_apply, h.slot_shiftPast (mem_citedBy.mp hi)]

end Widens

end Citing

/-! ### Tables of depths -/

/-- Tables of the same size that know the same of every index are equal. -/
theorem Depths.ext_at? {t t' : Depths} (hsize : t.size = t'.size) (h : ∀ i, t.at? i = t'.at? i) :
    t = t' := by
  refine Array.ext hsize fun i hi hi' => ?_
  have hat := h i
  rwa [at?, at?, Array.getElem?_eq_getElem hi, Array.getElem?_eq_getElem hi', Option.join_some,
    Option.join_some] at hat

/-- Two tables of least depths know the same of indices that have the same depths. -/
theorem Depths.Least.at?_eq {t t' : Depths} {depths depths' : Nat → Set Nat} {i j : Nat}
    (h : t.Least depths) (h' : t'.Least depths') (heq : depths i = depths' j) :
    t.at? i = t'.at? j := by
  refine Option.ext fun c => ?_
  rw [h i c, h' j c, heq]

/-! ### Links -/

/-- A link with the new indices of its ends. -/
def Link.shift (place : Nat) (l : Link) : Link :=
  { l with citing := shiftPast place l.citing, cited := shiftPast place l.cited }

/-- A link keeps its key, and it is mutual as before. -/
theorem Citing.Widens.links_eq {place : Nat} {c c' : Citing} (h : c.Widens place c')
    {ids ids' : Nat → OpinionId} (hids : ∀ i, ids' (shiftPast place i) = ids i) :
    c'.links ids' = (c.links ids).map (Link.shift place) := by
  show c'.openings.map (linkAfter ids' c'.citations) =
    (c.openings.map (linkAfter ids c.citations)).map (Link.shift place)
  rw [h.openings_eq, List.map_map, List.map_map]
  refine List.map_congr_left fun e _ => ?_
  have hback : (e.2, e.1) ∈ c.citations ↔ shiftCitation place (e.2, e.1) ∈ c'.citations := by
    rw [h.citations_eq, List.mem_map_of_injective (shiftCitation_injective place)]
  simp only [Function.comp_apply, linkAfter, Link.shift, hids, hback]

namespace Network

/-! ### Networks -/

/-- A network with one more opinion at a place, which is neither first nor last and is not connected
to the others. -/
structure Widens (place : Nat) (g g' : Network) : Prop where
  drawn : g.Drawn
  drawn' : g'.Drawn
  pos : 0 < place
  lt : place < g.size
  size : g'.size = g.size + 1
  /-- The records that were there stand at the new indices. -/
  record : ∀ i, g'.opinions[shiftPast place i]?.map Opinion.record =
    g.opinions[i]?.map Opinion.record
  apart : ∀ {i j}, g'.Cites i j → i ≠ place ∧ j ≠ place

/-- Who cites whom is read off the records. -/
theorem cites_iff_records {g : Network} {i j : Nat} : g.Cites i j ↔ i ≠ j ∧ ∃ a b,
    g.opinions[i]?.map Opinion.record = some a ∧ g.opinions[j]?.map Opinion.record = some b ∧
      b.id ∈ a.cited.ids := by
  refine and_congr_right fun _ => ?_
  simp only [Option.map_eq_some_iff]
  constructor
  · intro h
    obtain ⟨a, b, ha, hb, hid⟩ := h
    exact ⟨a.record, b.record, ⟨a, ha, rfl⟩, ⟨b, hb, rfl⟩, hid⟩
  · intro h
    obtain ⟨_, _, ⟨a, ha, rfl⟩, ⟨b, hb, rfl⟩, hid⟩ := h
    exact ⟨a, b, ha, hb, hid⟩

namespace Widens

variable {place i j n : Nat} {g g' : Network} (h : g.Widens place g')
include h

/-! #### Opinions -/

theorem shiftPast_lt_size_iff : shiftPast place i < g'.size ↔ i < g.size := by
  rw [h.size, shiftPast_lt_iff (Nat.le_of_lt h.lt)]

theorem place_lt_size : place < g'.size := h.size ▸ Nat.lt_succ_of_lt h.lt

theorem idAt?_shiftPast (i : Nat) : g'.idAt? (shiftPast place i) = g.idAt? i := by
  have hid := congrArg (Option.map OpinionRecord.id) (h.record i)
  rwa [Option.map_map, Option.map_map] at hid

theorem idAt_shiftPast (i : Nat) :
    Citing.idAt g'.opinions.toList (shiftPast place i) = Citing.idAt g.opinions.toList i := by
  have hid : ∀ (g : Network) (i : Nat),
      Citing.idAt g.opinions.toList i = (g.idAt? i).getD default := by
    intro g i
    rw [Citing.idAt, idAt?, Array.getElem?_toList]
    cases g.opinions[i]? <;> rfl
  rw [hid, hid, h.idAt?_shiftPast]

theorem directionAt_shiftPast (i : Nat) :
    g'.directionAt (shiftPast place i) = g.directionAt i := by
  have hdirection : ∀ (g : Network) (i : Nat), g.directionAt i =
      ((g.opinions[i]?.map Opinion.record).map OpinionRecord.direction).getD .unknown := by
    intro g i
    unfold directionAt
    cases g.opinions[i]? <;> rfl
  rw [hdirection, hdirection, h.record]

theorem cites_shiftPast_iff : g'.Cites (shiftPast place i) (shiftPast place j) ↔ g.Cites i j := by
  rw [cites_iff_records, cites_iff_records, h.record, h.record, ne_eq,
    (shiftPast_injective place).eq_iff]

theorem citing_widens : g.citing.Widens place g'.citing where
  size := by rw [size_citing, size_citing, h.size]
  le := g.size_citing ▸ Nat.le_of_lt h.lt
  cites i j := Bool.eq_iff_iff.mpr (by rw [citing_iff, citing_iff, h.cites_shiftPast_iff])
  apart hcites := h.apart (citing_iff.mp hcites)

/-- The links stand at the same slots, with the same keys. -/
theorem links_eq : g'.links.toList = g.links.toList.map (Link.shift place) := by
  rw [h.drawn'.links, h.citing_widens.links_eq h.idAt_shiftPast, h.drawn.links]

theorem linkCount_eq : g'.linkCount = g.linkCount := by
  rw [linkCount, ← Array.length_toList, h.links_eq, List.length_map, Array.length_toList, linkCount]

theorem row_shiftPast (way : Way) (i : Nat) : (g'.adjacency way).row (shiftPast place i) =
    ((g.adjacency way).row i).map fun entry => (shiftPast place entry.1, entry.2) := by
  cases way with
  | cites =>
      show g'.cites.row _ = (g.cites.row i).map _
      rw [h.drawn'.row_cites, h.drawn.row_cites, h.citing_widens.citedRow_shiftPast]
  | citedBy =>
      show g'.citedBy.row _ = (g.citedBy.row i).map _
      rw [h.drawn'.row_citedBy, h.drawn.row_citedBy, h.citing_widens.citedByRow_shiftPast]

theorem row_place (way : Way) : (g'.adjacency way).row place = [] := by
  refine List.eq_nil_iff_forall_not_mem.mpr fun entry hentry => ?_
  cases way with
  | cites => exact (h.apart (h.drawn'.mem_row_cites.mp hentry).1).1 rfl
  | citedBy => exact (h.apart (h.drawn'.mem_row_citedBy.mp hentry).1).2 rfl

/-! #### Chains -/

theorem shiftPast_earliest : shiftPast place earliest = earliest := shiftPast_of_lt h.pos

theorem shiftPast_latest : shiftPast place g.latest = g'.latest := by
  have hlt := h.lt
  rw [latest, latest, h.size, shiftPast_of_le (by omega)]
  omega

/-- A chain from an opinion that was there stays among those that were there. -/
theorem exists_of_chain {k : Nat} (hchain : Chain g'.Cites (shiftPast place i) n k) :
    ∃ j, shiftPast place j = k ∧ Chain g.Cites i n j := by
  induction hchain with
  | nil => exact ⟨i, rfl, .nil⟩
  | snoc _ hcites ih =>
      obtain ⟨j, rfl, hchain⟩ := ih
      obtain ⟨k, rfl⟩ := exists_shiftPast_eq (h.apart hcites).2
      exact ⟨k, rfl, hchain.snoc (h.cites_shiftPast_iff.mp hcites)⟩

theorem chain_shiftPast_iff :
    Chain g'.Cites (shiftPast place i) n (shiftPast place j) ↔ Chain g.Cites i n j := by
  constructor
  · intro hchain
    obtain ⟨j', hj', hchain⟩ := h.exists_of_chain hchain
    rwa [← shiftPast_injective place hj']
  · intro hchain
    induction hchain with
    | nil => exact .nil
    | snoc _ hcites ih => exact ih.snoc (h.cites_shiftPast_iff.mpr hcites)

/-- No chain leads from another opinion to the new one. -/
theorem eq_of_chain_to_place (hchain : Chain g'.Cites i n place) : i = place := by
  cases hchain with
  | nil => rfl
  | snoc _ hcites => exact absurd rfl (h.apart hcites).2

/-- No chain leads from the new opinion to another one. -/
theorem eq_of_chain_from_place (hchain : Chain g'.Cites place n i) : i = place := by
  induction hchain with
  | nil => rfl
  | snoc _ hcites ih => exact absurd ih (h.apart hcites).1

/-! #### Distances -/

theorem forward_shiftPast (i : Nat) :
    g'.distances.forward.at? (shiftPast place i) = g.distances.forward.at? i := by
  refine h.drawn'.forward_least.at?_eq h.drawn.forward_least (Set.ext fun n => ?_)
  show Chain g'.Cites (shiftPast place i) n earliest ↔ Chain g.Cites i n earliest
  rw [← h.chain_shiftPast_iff, h.shiftPast_earliest]

theorem backward_shiftPast (i : Nat) :
    g'.distances.backward.at? (shiftPast place i) = g.distances.backward.at? i := by
  refine h.drawn'.backward_least.at?_eq h.drawn.backward_least (Set.ext fun n => ?_)
  show Chain g'.Cites g'.latest n (shiftPast place i) ↔ Chain g.Cites g.latest n i
  rw [← h.chain_shiftPast_iff, h.shiftPast_latest]

/-- The new opinion is not reached from the earliest one. -/
theorem forward_place : g'.distances.forward.at? place = none := by
  rw [h.drawn'.forward_least.eq_none_iff, Set.eq_empty_iff_forall_notMem]
  intro n hchain
  have hearliest := h.eq_of_chain_from_place hchain
  exact absurd hearliest (Nat.ne_of_lt h.pos)

/-- The new opinion is not reached from the latest one. -/
theorem backward_place : g'.distances.backward.at? place = none := by
  rw [h.drawn'.backward_least.eq_none_iff, Set.eq_empty_iff_forall_notMem]
  intro n hchain
  have hlatest := h.eq_of_chain_to_place hchain
  rw [← h.shiftPast_latest] at hlatest
  exact shiftPast_ne place _ hlatest

theorem slot_shiftPast (hcites : g.Cites i j) :
    g'.citing.slot (shiftPast place i) (shiftPast place j) = g.citing.slot i j :=
  h.citing_widens.slot_shiftPast (citing_iff.mpr hcites)

/-- What is said of the citations of a link is said of those from before. -/
theorem exists_cites_slot_iff {slot : Nat} {P P' : Nat → Nat → Nat → Prop}
    (hP : ∀ i j m, P' (shiftPast place i) (shiftPast place j) m ↔ P i j m) :
    (∃ i j m, g'.Cites i j ∧ slot = g'.citing.slot i j ∧ P' i j m) ↔
      ∃ i j m, g.Cites i j ∧ slot = g.citing.slot i j ∧ P i j m := by
  constructor
  · rintro ⟨i, j, m, hcites, rfl, hp⟩
    obtain ⟨hi, hj⟩ := h.apart hcites
    obtain ⟨i, rfl⟩ := exists_shiftPast_eq hi
    obtain ⟨j, rfl⟩ := exists_shiftPast_eq hj
    have hcites := h.cites_shiftPast_iff.mp hcites
    exact ⟨i, j, m, hcites, h.slot_shiftPast hcites, (hP i j m).mp hp⟩
  · rintro ⟨i, j, m, hcites, rfl, hp⟩
    exact ⟨_, _, m, h.cites_shiftPast_iff.mpr hcites, (h.slot_shiftPast hcites).symm,
      (hP i j m).mpr hp⟩

/-- Every link is crossed from the earliest opinion at the same depth. -/
theorem linkForward_eq : g'.distances.linkForward = g.distances.linkForward := by
  refine Depths.ext_at? ?_ fun slot => ?_
  · show (g'.sweep .citedBy earliest).crossing.size = (g.sweep .citedBy earliest).crossing.size
    rw [h.drawn'.size_sweep_crossing _ h.drawn'.earliest_lt,
      h.drawn.size_sweep_crossing _ h.drawn.earliest_lt, h.linkCount_eq]
  · refine h.drawn'.linkForward_least.at?_eq h.drawn.linkForward_least (Set.ext fun n => ?_)
    refine h.exists_cites_slot_iff fun i j m => and_congr_left fun _ => ?_
    rw [← h.chain_shiftPast_iff, h.shiftPast_earliest]

/-- Every link is crossed from the latest opinion at the same depth. -/
theorem linkBackward_eq : g'.distances.linkBackward = g.distances.linkBackward := by
  refine Depths.ext_at? ?_ fun slot => ?_
  · show (g'.sweep .cites g'.latest).crossing.size = (g.sweep .cites g.latest).crossing.size
    rw [h.drawn'.size_sweep_crossing _ h.drawn'.latest_lt,
      h.drawn.size_sweep_crossing _ h.drawn.latest_lt, h.linkCount_eq]
  · refine h.drawn'.linkBackward_least.at?_eq h.drawn.linkBackward_least (Set.ext fun n => ?_)
    refine h.exists_cites_slot_iff fun i j m => and_congr_left fun _ => ?_
    rw [← h.chain_shiftPast_iff, h.shiftPast_latest]

/-! #### Degrees -/

theorem degree_shiftPast (i : Nat) : g'.degrees.node (shiftPast place i) = g.degrees.node i := by
  have hplace := h.lt
  by_cases hi : i < g.size
  · have hi' := h.shiftPast_lt_size_iff.mpr hi
    -- The roots are the same opinions, since the new one is neither first nor last.
    have hfirst : shiftPast place i = 0 ↔ i = 0 := by
      rw [← (shiftPast_injective place).eq_iff (a := i), shiftPast_of_lt h.pos]
    have hlast : shiftPast place i + 1 = g'.size ↔ i + 1 = g.size := by
      rw [h.size]
      unfold shiftPast
      split <;> omega
    rw [degrees, degrees, Distances.node_degrees hi', Distances.node_degrees hi,
      h.forward_shiftPast, h.backward_shiftPast]
    simp only [Degree.ofNode, hfirst, hlast]
  · have hi' : ¬ shiftPast place i < g'.size := mt h.shiftPast_lt_size_iff.mp hi
    simp [degrees, Distances.degrees, Degrees.node, hi, hi']

theorem degree_place : g'.degrees.node place = .distant := by
  have hpos := h.pos
  have hlt := h.lt
  have hsize := h.size
  have hroot : ¬ (place = 0 ∨ place + 1 = g'.size) := by omega
  rw [degrees, Distances.node_degrees h.place_lt_size, h.forward_place, h.backward_place]
  exact if_neg (by simpa using hroot)

theorem degrees_links_eq : g'.degrees.links = g.degrees.links := by
  rw [degrees, degrees, h.linkCount_eq]
  simp only [Distances.degrees, h.linkForward_eq, h.linkBackward_eq]

/-! #### Loops -/

theorem reaches_shiftPast (hi : i < g.size) (j : Nat) :
    reaches g'.reachTable (shiftPast place i) (shiftPast place j) =
      reaches g.reachTable i j := by
  rw [Bool.eq_iff_iff, h.drawn'.reaches_reachTable_iff (h.shiftPast_lt_size_iff.mpr hi),
    h.drawn.reaches_reachTable_iff hi]
  exact exists_congr fun n => h.chain_shiftPast_iff

theorem reaches_place (hi : i < g.size) :
    reaches g'.reachTable (shiftPast place i) place = false := by
  rw [← Bool.not_eq_true, h.drawn'.reaches_reachTable_iff (h.shiftPast_lt_size_iff.mpr hi)]
  rintro ⟨n, hchain⟩
  exact shiftPast_ne place i (h.eq_of_chain_to_place hchain)

/-- An opinion is in a loop with the same opinions. -/
theorem loopOf_shiftPast (hi : i < g.size) : g'.loopOf g'.reachTable (shiftPast place i) =
    (g.loopOf g.reachTable i).map (shiftPast place) := by
  rw [loopOf, h.size, filter_range_succ (Nat.le_of_lt h.lt) (by simp [h.reaches_place hi]), loopOf]
  refine congrArg (List.map _) (List.filter_congr fun j hj => ?_)
  rw [Function.comp_apply, h.reaches_shiftPast hi, h.reaches_shiftPast (List.mem_range.mp hj)]

/-- The new opinion is in a loop with itself only. -/
theorem loopOf_place : g'.loopOf g'.reachTable place = [place] := by
  refine List.Pairwise.eq_of_mem_iff (Drawn.pairwise_loopOf g' _ place)
    (List.pairwise_singleton (· < ·) place) fun j => ?_
  rw [h.drawn'.mem_loopOf_iff h.place_lt_size, List.mem_singleton]
  constructor
  · intro hloop
    obtain ⟨n, hchain⟩ := hloop.2.1
    exact h.eq_of_chain_from_place hchain
  · rintro rfl
    exact ⟨h.place_lt_size, .refl g' _⟩

theorem loopIndices_eq : g'.loopIndices = g.loopIndices.map (List.map (shiftPast place)) := by
  simp only [loopIndices, List.filterMap_map, List.map_filterMap]
  rw [h.size, filterMap_range_succ (Nat.le_of_lt h.lt) (by simp [h.loopOf_place])]
  refine List.filterMap_congr fun i hi => ?_
  have hhead : ∀ loop : List Nat,
      (loop.map (shiftPast place)).head? = some (shiftPast place i) ↔ loop.head? = some i := by
    intro loop
    rw [List.head?_map, ← Option.map_some,
      (Option.map_injective (shiftPast_injective place)).eq_iff]
  simp only [Function.comp_apply, h.loopOf_shiftPast (List.mem_range.mp hi), hhead, List.length_map]
  split <;> rfl

/-- The same loops are reported. -/
theorem loops_eq : g'.loops = g.loops := by
  have hids : ∀ loop : List Nat,
      (loop.map (shiftPast place)).filterMap g'.idAt? = loop.filterMap g.idAt? := by
    intro loop
    rw [List.filterMap_map]
    exact List.filterMap_congr fun i _ => h.idAt?_shiftPast i
  rw [loops, h.loopIndices_eq, List.map_map, loops]
  simp only [Function.comp_def, hids]

end Widens

end Network

end Precedent
