import Precedent.Proofs.Network.Degrees

/-!
# Precedent.Proofs.Network.Crossings

**The depth of a link is one more than the distance of its nearest end.** The forward sweep crosses
a link from the cited to the citing opinion, the backward sweep from the citing to the cited one. A
link that stands for two citations can be crossed either way, so it has two ends of each kind, and
the smaller of their distances counts.

A depth is therefore at least one, and an opinion that is not a root is at least one step away from
it. That is why the degrees may subtract what both summands count: nothing is ever taken from a sum
that is smaller.
-/

namespace Precedent

/-- A table that holds, for each link, one more than the least depth of the ends it has been crossed
from, says so of what another table knows of these ends. -/
theorem Depths.Least.crossed_eq_some_iff {t s : Depths} {depths ends : Nat → Set Nat}
    (ht : t.Least depths)
    (hs : s.Least fun slot => {n | ∃ v ∈ ends slot, ∃ m ∈ depths v, n = m + 1}) {slot n : Nat} :
    s.at? slot = some n ↔
      ∃ m, IsLeast {m | ∃ v ∈ ends slot, t.at? v = some m} m ∧ n = m + 1 := by
  rw [hs slot n]
  constructor
  · intro hleast
    obtain ⟨⟨v, hv, m, hm, rfl⟩, hlower⟩ := hleast
    -- The depth of this end is the least one, so the table knows this depth of it.
    have hat : t.at? v = some m := by
      refine (ht v m).mpr ⟨hm, fun m' hm' => ?_⟩
      exact Nat.le_of_succ_le_succ (hlower ⟨v, hv, m', hm', rfl⟩)
    refine ⟨m, ⟨⟨v, hv, hat⟩, fun m' hm' => ?_⟩, rfl⟩
    obtain ⟨v', hv', hat'⟩ := hm'
    exact Nat.le_of_succ_le_succ (hlower ⟨v', hv', m', ((ht v' m').mp hat').1, rfl⟩)
  · intro h
    obtain ⟨m, ⟨⟨v, hv, hat⟩, hlower⟩, rfl⟩ := h
    refine ⟨⟨v, hv, m, ((ht v m).mp hat).1, rfl⟩, fun n hn => ?_⟩
    obtain ⟨v', hv', m', hm', rfl⟩ := hn
    obtain ⟨c, hc, hle⟩ := ht.exists_le hm'
    exact Nat.succ_le_succ ((hlower ⟨v', hv', hc⟩).trans hle)

/-- Nothing is known of a link exactly if nothing is known of its ends. -/
theorem Depths.Least.crossed_eq_none_iff {t s : Depths} {depths ends : Nat → Set Nat}
    (ht : t.Least depths)
    (hs : s.Least fun slot => {n | ∃ v ∈ ends slot, ∃ m ∈ depths v, n = m + 1}) {slot : Nat} :
    s.at? slot = none ↔ ∀ v ∈ ends slot, t.at? v = none := by
  rw [hs.eq_none_iff, Set.eq_empty_iff_forall_notMem]
  constructor
  · intro hnone v hv
    rw [ht.eq_none_iff, Set.eq_empty_iff_forall_notMem]
    exact fun m hm => hnone (m + 1) ⟨v, hv, m, hm, rfl⟩
  · intro hnone n hn
    obtain ⟨v, hv, m, hm, rfl⟩ := hn
    rw [ht.eq_none_iff.mp (hnone v hv)] at hm
    exact hm

/-- Away from the roots and from distance zero the degree is that of the sum of the distances. -/
theorem Degree.ofNode_of_pos {index size f b : Nat} (hroot : ¬ (index = 0 ∨ index + 1 = size))
    (hf : 1 ≤ f) (hb : 1 ≤ b) :
    ofNode index size (some f) (some b) = .ofIndex (f + b - 1) := by
  obtain ⟨f, rfl⟩ := Nat.exists_eq_add_of_le' hf
  obtain ⟨b, rfl⟩ := Nat.exists_eq_add_of_le' hb
  exact if_neg (by simpa using hroot)

namespace Network

/-- A citation is collapsed into the link at a slot. -/
def CollapsedInto (g : Network) (slot i j : Nat) : Prop :=
  g.Cites i j ∧ g.linkBetween? i j = some slot

/-- The opinions that are cited by the citations of a link. -/
def citedEnds (g : Network) (slot : Nat) : Set Nat := {j | ∃ i, g.CollapsedInto slot i j}

/-- The opinions that cite by the citations of a link. -/
def citingEnds (g : Network) (slot : Nat) : Set Nat := {i | ∃ j, g.CollapsedInto slot i j}

namespace Drawn

variable {g : Network} (hg : g.Drawn) {slot i j : Nat} {l : Link}
include hg

/-! ### The ends of a link -/

theorem collapsedInto_iff :
    g.CollapsedInto slot i j ↔ g.Cites i j ∧ slot = g.citing.slot i j := by
  refine and_congr_right fun hcites => ?_
  rw [hg.linkBetween?_eq_some_iff]
  constructor
  · intro hjoins
    exact hg.slot_unique hjoins (hg.joinsAt_iff.mpr (Or.inl ⟨hcites, rfl⟩))
  · intro hslot
    exact hg.joinsAt_iff.mpr (Or.inl ⟨hcites, hslot⟩)

/-- A link stands for its own citation, and for the reverse of it if it is mutual. -/
theorem collapsedInto_iff_of_getElem? (hl : g.links[slot]? = some l) :
    g.CollapsedInto slot i j ↔
      (i = l.citing ∧ j = l.cited) ∨ (l.isMutual = true ∧ i = l.cited ∧ j = l.citing) := by
  have hmem := Array.mem_of_getElem? hl
  have hcites := hg.collapsesCitations.cites l hmem
  have hmutual := hg.collapsesCitations.isMutual_iff l hmem
  have hjoins : g.CollapsedInto slot i j ↔ g.Cites i j ∧ l.Joins i j := by
    rw [hg.collapsedInto_iff]
    exact and_congr_right fun hij => hg.slot_eq_iff hl hij
  rw [hjoins]
  constructor
  · intro h
    obtain ⟨hij, heq | heq⟩ := h <;> obtain ⟨rfl, rfl⟩ := Prod.mk.inj heq
    · exact Or.inl ⟨rfl, rfl⟩
    · exact Or.inr ⟨hmutual.mpr ⟨hcites, hij⟩, rfl, rfl⟩
  · intro h
    rcases h with ⟨rfl, rfl⟩ | ⟨htrue, rfl, rfl⟩
    · exact ⟨hcites, Or.inl rfl⟩
    · exact ⟨(hmutual.mp htrue).2, Or.inr rfl⟩

theorem citedEnds_eq (hl : g.links[slot]? = some l) :
    g.citedEnds slot = if l.isMutual then {l.cited, l.citing} else {l.cited} := by
  ext j
  simp only [citedEnds, Set.mem_ofPred_eq, hg.collapsedInto_iff_of_getElem? hl]
  cases l.isMutual <;> simp [exists_or]

theorem citingEnds_eq (hl : g.links[slot]? = some l) :
    g.citingEnds slot = if l.isMutual then {l.citing, l.cited} else {l.citing} := by
  ext i
  simp only [citingEnds, Set.mem_ofPred_eq, hg.collapsedInto_iff_of_getElem? hl]
  cases l.isMutual <;> simp [exists_or]

/-! ### Depths by the ends of links -/

theorem size_sweep_crossing {root : Nat} (way : Way) (hroot : root < g.size) :
    (g.sweep way root).crossing.size = g.linkCount := by
  obtain ⟨-, taken, crossed, h⟩ := hg.sweep_swept way hroot
  exact h.stamped.size_crossing

theorem linkForward_least_ends : g.distances.linkForward.Least fun slot =>
    {n | ∃ j ∈ g.citedEnds slot, ∃ m ∈ {m | Chain g.Cites j m earliest}, n = m + 1} := by
  refine hg.linkForward_least.congr fun slot => Set.ext fun n => ?_
  simp only [citedEnds, Set.mem_ofPred_eq, hg.collapsedInto_iff]
  constructor
  · intro h
    obtain ⟨i, j, m, hcites, hslot, hchain, heq⟩ := h
    exact ⟨j, ⟨i, hcites, hslot⟩, m, hchain, heq⟩
  · intro h
    obtain ⟨j, ⟨i, hcites, hslot⟩, m, hchain, heq⟩ := h
    exact ⟨i, j, m, hcites, hslot, hchain, heq⟩

theorem linkBackward_least_ends : g.distances.linkBackward.Least fun slot =>
    {n | ∃ i ∈ g.citingEnds slot, ∃ m ∈ {m | Chain g.Cites g.latest m i}, n = m + 1} := by
  refine hg.linkBackward_least.congr fun slot => Set.ext fun n => ?_
  simp only [citingEnds, Set.mem_ofPred_eq, hg.collapsedInto_iff]
  constructor
  · intro h
    obtain ⟨i, j, m, hcites, hslot, hchain, heq⟩ := h
    exact ⟨i, ⟨j, hcites, hslot⟩, m, hchain, heq⟩
  · intro h
    obtain ⟨i, ⟨j, hcites, hslot⟩, m, hchain, heq⟩ := h
    exact ⟨i, j, m, hcites, hslot, hchain, heq⟩

/-! ### Depths and distances are positive -/

theorem linkForward_pos {n : Nat} (h : g.distances.linkForward.at? slot = some n) : 1 ≤ n := by
  obtain ⟨j, -, m, -, rfl⟩ := ((hg.linkForward_least_ends slot n).mp h).1
  exact Nat.le_add_left 1 m

theorem linkBackward_pos {n : Nat} (h : g.distances.linkBackward.at? slot = some n) : 1 ≤ n := by
  obtain ⟨i, -, m, -, rfl⟩ := ((hg.linkBackward_least_ends slot n).mp h).1
  exact Nat.le_add_left 1 m

/-- Only the earliest opinion is at distance zero from it. -/
theorem forward_pos {n : Nat} (hi : i ≠ earliest) (h : g.distances.forward.at? i = some n) :
    1 ≤ n := by
  rw [Nat.one_le_iff_ne_zero]
  rintro rfl
  exact hi ((hg.forward_least i 0).mp h).1.eq_of_zero

/-- Only the latest opinion is at distance zero from it. -/
theorem backward_pos {n : Nat} (hi : i ≠ g.latest) (h : g.distances.backward.at? i = some n) :
    1 ≤ n := by
  rw [Nat.one_le_iff_ne_zero]
  rintro rfl
  exact hi ((hg.backward_least i 0).mp h).1.eq_of_zero.symm

end Drawn

/-- The depths of the links of a network are those of their nearest ends, and all that is subtracted
from a sum of depths or distances is in it. -/
structure HasCrossingDepths (g : Network) (d : Distances) : Prop where
  size_linkForward : d.linkForward.size = g.linkCount
  size_linkBackward : d.linkBackward.size = g.linkCount
  /-- A link has one cited and one citing end, and a mutual link two of each kind. -/
  ends : ∀ slot l, g.links[slot]? = some l →
    g.citedEnds slot = (if l.isMutual then {l.cited, l.citing} else {l.cited}) ∧
    g.citingEnds slot = (if l.isMutual then {l.citing, l.cited} else {l.citing})
  /-- The forward depth is one more than the smallest forward distance of a cited end. -/
  linkForward_eq_some : ∀ slot n, d.linkForward.at? slot = some n ↔
    ∃ m, IsLeast {m | ∃ j ∈ g.citedEnds slot, d.forward.at? j = some m} m ∧ n = m + 1
  linkForward_eq_none : ∀ slot, d.linkForward.at? slot = none ↔
    ∀ j ∈ g.citedEnds slot, d.forward.at? j = none
  /-- The backward depth is one more than the smallest backward distance of a citing end. -/
  linkBackward_eq_some : ∀ slot n, d.linkBackward.at? slot = some n ↔
    ∃ m, IsLeast {m | ∃ i ∈ g.citingEnds slot, d.backward.at? i = some m} m ∧ n = m + 1
  linkBackward_eq_none : ∀ slot, d.linkBackward.at? slot = none ↔
    ∀ i ∈ g.citingEnds slot, d.backward.at? i = none
  linkForward_pos : ∀ slot n, d.linkForward.at? slot = some n → 1 ≤ n
  linkBackward_pos : ∀ slot n, d.linkBackward.at? slot = some n → 1 ≤ n
  forward_pos : ∀ i n, i ≠ earliest → d.forward.at? i = some n → 1 ≤ n
  backward_pos : ∀ i n, i ≠ g.latest → d.backward.at? i = some n → 1 ≤ n
  /-- The degree of an opinion other than the two roots is that of the sum of its distances less
  one, and neither of them is zero. -/
  node_degree : ∀ i f b, i < g.size → i ≠ earliest → i ≠ g.latest →
    d.forward.at? i = some f → d.backward.at? i = some b →
    1 ≤ f + b ∧ (d.degrees g.size g.linkCount).node i = .ofIndex (f + b - 1)
  /-- The degree of a link is that of the sum of its depths less two, which the sum is at least. -/
  link_degree : ∀ slot f b, d.linkForward.at? slot = some f → d.linkBackward.at? slot = some b →
    2 ≤ f + b ∧ (d.degrees g.size g.linkCount).link slot = .ofIndex (f + b - 2)

/-- **Crossing depths are exact**, for every list of records that is accepted. -/
theorem ofRecords_crossings {records : List OpinionRecord} {g : Network}
    (h : ofRecords records = .ok g) : g.HasCrossingDepths g.distances := by
  obtain ⟨-, hg⟩ := ofRecords_drawn h
  refine
    { size_linkForward := hg.size_sweep_crossing .citedBy hg.earliest_lt
      size_linkBackward := hg.size_sweep_crossing .cites hg.latest_lt
      ends := fun slot l hl => ⟨hg.citedEnds_eq hl, hg.citingEnds_eq hl⟩
      linkForward_eq_some := fun _ _ =>
        hg.forward_least.crossed_eq_some_iff hg.linkForward_least_ends
      linkForward_eq_none := fun _ =>
        hg.forward_least.crossed_eq_none_iff hg.linkForward_least_ends
      linkBackward_eq_some := fun _ _ =>
        hg.backward_least.crossed_eq_some_iff hg.linkBackward_least_ends
      linkBackward_eq_none := fun _ =>
        hg.backward_least.crossed_eq_none_iff hg.linkBackward_least_ends
      linkForward_pos := fun _ _ => hg.linkForward_pos
      linkBackward_pos := fun _ _ => hg.linkBackward_pos
      forward_pos := fun _ _ => hg.forward_pos
      backward_pos := fun _ _ => hg.backward_pos
      node_degree := ?_
      link_degree := ?_ }
  · intro i f b hi hearliest hlatest hf hb
    have hfpos := hg.forward_pos hearliest hf
    have hbpos := hg.backward_pos hlatest hb
    have hroot : ¬ (i = 0 ∨ i + 1 = g.size) := by
      rw [earliest] at hearliest
      rw [latest] at hlatest
      omega
    refine ⟨Nat.le_add_right_of_le hfpos, ?_⟩
    rw [Distances.node_degrees hi, hf, hb, Degree.ofNode_of_pos hroot hfpos hbpos]
  · intro slot f b hf hb
    have hfpos := hg.linkForward_pos hf
    have hbpos := hg.linkBackward_pos hb
    have hslot : slot < g.linkCount :=
      hg.size_sweep_crossing .citedBy hg.earliest_lt ▸ Depths.lt_size_of_at? hf
    refine ⟨Nat.add_le_add hfpos hbpos, ?_⟩
    rw [Distances.link_degrees hslot, hf, hb]
    rfl

/-- Of five opinions the third and the fourth cite each other. The link belongs to the third, which
is two steps from the latest opinion, but the fourth is nearer and the depth is taken from there. -/
theorem fiveRecords_crossings : ∃ g, ofRecords fiveRecords = .ok g ∧
    (g.linkBetween? 2 3, g.distances.backward.at? 2, g.distances.backward.at? 3,
      g.distances.linkBackward.at? 2) = (some 2, some 2, some 1, some 2) ∧
    g.HasCrossingDepths g.distances := by
  obtain ⟨g, hok, hdepths⟩ := exists_ok_of_map_toOption (x := ofRecords fiveRecords)
    (f := fun g => (g.linkBetween? 2 3, g.distances.backward.at? 2, g.distances.backward.at? 3,
      g.distances.linkBackward.at? 2)) (b := (some 2, some 2, some 1, some 2)) (by cbv)
  exact ⟨g, hok, hdepths, ofRecords_crossings hok⟩

end Network

end Precedent
