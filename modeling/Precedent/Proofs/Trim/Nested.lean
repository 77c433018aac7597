import Precedent.Proofs.Network.Nearness
import Precedent.Proofs.Trim.ParentLinks

/-!
# Precedent.Proofs.Trim.Nested

**Cuts are nested.** A larger limit keeps what a smaller one keeps, in the same order and with links
that lead the same way, whatever the mode: every list that a cut gives is a filter of one that does
not depend on the limit, and the filter only lets more through. Between the modes the lists are
compared in the same way; the parent links are not among the citation links, but their slots are.

The limit one past the farthest degree leaves nothing out in degrees mode, and no smaller limit does
as well.
-/

namespace Precedent

/-- The opinions of a cut with their degrees. Their places are left out, since these depend on what
else is kept. -/
def TrimmedMap.keptDegrees (t : TrimmedMap) : List (Nat × Degree) :=
  t.opinions.map fun k => (k.index, k.degree)

/-- A cut keeps nothing that another one does not keep, and in the same order. -/
structure TrimmedMap.Within (t t' : TrimmedMap) : Prop where
  opinions : t.keptDegrees.Sublist t'.keptDegrees
  links : t.links.Sublist t'.links

namespace Atlas

variable {a : Atlas} {limit limit' : Nat}

/-! ### Two limits -/

section

variable (hle : limit ≤ limit')
include hle

theorem keeps_mono {i : Nat} (h : a.keeps limit i = true) : a.keeps limit' i = true :=
  Degree.isBelow_mono hle h

theorem keepsEnds_mono {k : KeptLink} (h : a.keepsEnds limit k = true) :
    a.keepsEnds limit' k = true := by
  simp only [keepsEnds, Bool.and_eq_true] at h ⊢
  exact ⟨keeps_mono hle h.1, keeps_mono hle h.2⟩

theorem keptOpinions_sublist :
    ((a.keptOpinions limit).map fun k => (k.index, k.degree)).Sublist
      ((a.keptOpinions limit').map fun k => (k.index, k.degree)) := by
  have hdegree : ∀ limit, ((a.keptOpinions limit).map fun k => (k.index, k.degree)) =
      ((a.keptOpinions limit).map KeptOpinion.index).map fun i => (i, a.degrees.node i) := by
    intro limit
    rw [keptOpinions, List.map_map, List.map_map, List.map_map]
    rfl
  rw [hdegree, hdegree, map_index_keptOpinions, map_index_keptOpinions]
  exact (List.monotone_filter_right _ fun _ => keeps_mono hle).map _

/-- Of links that are filtered by their ends and then by their degrees a larger limit leaves out
fewer. -/
theorem keptLinks_sublist (ha : a.Derived) : (a.keptLinks limit).Sublist (a.keptLinks limit') := by
  have hends : ∀ links : List KeptLink,
      (links.filter (a.keepsEnds limit)).Sublist (links.filter (a.keepsEnds limit')) :=
    fun links => List.monotone_filter_right links fun _ => keepsEnds_mono hle
  cases hmode : a.mode with
  | genealogy =>
      rw [keptLinks_genealogy ha.drawn ha.genealogy hmode,
        keptLinks_genealogy ha.drawn ha.genealogy hmode]
      exact (hends _).filter _
  | spaeth =>
      rw [keptLinks_spaeth hmode, keptLinks_spaeth hmode]
      exact hends _
  | degrees =>
      rw [keptLinks_degrees hmode, keptLinks_degrees hmode]
      exact ((hends _).filter _).trans
        (List.monotone_filter_right _ fun _ => Degree.isBelow_mono hle)

end

/-! ### Two modes -/

theorem keptLinks_degrees_sublist_spaeth :
    ((a.setMode .degrees).keptLinks limit).Sublist ((a.setMode .spaeth).keptLinks limit) := by
  rw [keptLinks_degrees rfl, keptLinks_spaeth rfl]
  exact List.filter_sublist

/-- A parent link has the slot of a citation link with the same two ends. -/
theorem slot_keptLinks_genealogy_subset_spaeth (ha : a.Derived) :
    ((a.setMode .genealogy).keptLinks limit).map KeptLink.slot ⊆
      ((a.setMode .spaeth).keptLinks limit).map KeptLink.slot := by
  intro slot hslot
  obtain ⟨k, hk, rfl⟩ := List.mem_map.mp hslot
  have hmode := ha.setMode .genealogy
  rw [keptLinks_genealogy hmode.drawn hmode.genealogy rfl] at hk
  obtain ⟨hk, hends⟩ := List.mem_filter.mp (List.mem_of_mem_filter hk)
  obtain ⟨l, hl, hjoins⟩ := joinsAt_of_mem_parentLinks hmode.drawn hmode.genealogy hk
  refine List.mem_map.mpr ⟨⟨k.slot, l.citing, l.cited, a.degrees.link k.slot⟩, ?_, rfl⟩
  rw [keptLinks_spaeth rfl]
  refine List.mem_filter.mpr ⟨mem_citationLinks.mpr ⟨l, hl, rfl⟩, ?_⟩
  rcases hjoins with heq | heq <;> obtain ⟨hciting, hcited⟩ := Prod.mk.inj heq
  · rw [keepsEnds, hciting, hcited]
    exact hends
  · rw [keepsEnds, hciting, hcited, Bool.and_comm]
    exact hends

/-! ### The limit that leaves nothing out -/

section

variable (ha : a.Derived)
include ha

theorem isBelow_max_degrees_iff (hpos : 1 ≤ limit) : a.degrees.max.isBelow limit = true ↔
    (∀ i < a.network.size, (a.degrees.node i).isBelow limit = true) ∧
      ∀ slot < a.network.linkCount, (a.degrees.link slot).isBelow limit = true := by
  rw [Degrees.isBelow_max_iff hpos, ha.size_nodes, ha.size_links]

/-- One past the farthest degree all opinions and all links are kept. -/
theorem kept_of_isBelow_max (hpos : 1 ≤ limit) (hmode : a.mode = .degrees)
    (h : a.degrees.max.isBelow limit = true) :
    (a.keptOpinions limit).map KeptOpinion.index = List.range a.network.size ∧
      a.keptLinks limit = a.citationLinks := by
  obtain ⟨hnodes, hlinks⟩ := (isBelow_max_degrees_iff ha hpos).mp h
  constructor
  · rw [map_index_keptOpinions, List.filter_eq_self]
    exact fun i hi => hnodes i (List.mem_range.mp hi)
  · rw [keptLinks_degrees hmode, List.filter_filter, List.filter_eq_self]
    intro k hk
    have hjoins := joinsAt_of_mem_citationLinks hk
    simp only [Bool.and_eq_true, keepsEnds]
    rw [degree_of_mem_citationLinks hk]
    exact ⟨hlinks _ hjoins.slot_lt, hnodes _ (ha.drawn.lt_of_joinsAt hjoins),
      hnodes _ (ha.drawn.lt_of_joinsAt hjoins.symm)⟩

/-- A limit that is not past the farthest degree leaves out what has this degree. -/
theorem exists_not_kept (hpos : 1 ≤ limit) (hmode : a.mode = .degrees)
    (h : ¬ a.degrees.max.isBelow limit = true) :
    (∃ i < a.network.size, i ∉ (a.keptOpinions limit).map KeptOpinion.index) ∨
      ∃ slot < a.network.linkCount, slot ∉ (a.keptLinks limit).map KeptLink.slot := by
  rw [isBelow_max_degrees_iff ha hpos, not_and_or] at h
  push Not at h
  rcases h with ⟨i, hi, hnot⟩ | ⟨slot, hslot, hnot⟩
  · exact Or.inl ⟨i, hi, fun hmem => hnot (mem_index_keptOpinions.mp hmem).2⟩
  · refine Or.inr ⟨slot, hslot, fun hmem => ?_⟩
    obtain ⟨-, -, -, -, hbelow⟩ := (mem_slot_keptLinks hmode).mp hmem
    exact hnot hbelow

end

/-! ### Cuts of one map -/

/-- The cuts of a map are nested. -/
structure NestsCuts (a : Atlas) : Prop where
  /-- A larger limit keeps what a smaller one keeps. -/
  limits : ∀ mode limit limit', 1 ≤ limit → limit ≤ limit' → ∃ t t',
    (a.setMode mode).trim limit = .ok t ∧ (a.setMode mode).trim limit' = .ok t' ∧ t.Within t'
  /-- All modes keep the same opinions. Of the links that Spaeth mode keeps, degrees mode keeps
  some, and genealogy mode has no other slots. -/
  modes : ∀ limit, 1 ≤ limit → ∃ t t' t'',
    (a.setMode .degrees).trim limit = .ok t ∧ (a.setMode .spaeth).trim limit = .ok t' ∧
    (a.setMode .genealogy).trim limit = .ok t'' ∧
    t.opinions = t'.opinions ∧ t''.opinions = t'.opinions ∧ t.links.Sublist t'.links ∧
    t''.links.map KeptLink.slot ⊆ t'.links.map KeptLink.slot
  /-- One past the farthest degree every opinion and every link is kept, by its slot. -/
  all_kept : ∃ t, (a.setMode .degrees).trim (a.degrees.max.index + 1) = .ok t ∧
    t.keptIndices = List.range a.network.size ∧
    t.links.map KeptLink.slot = List.range a.network.linkCount
  /-- Below that an opinion or a link is lost. -/
  some_lost : ∀ limit, 1 ≤ limit → limit < a.degrees.max.index + 1 → ∃ t,
    (a.setMode .degrees).trim limit = .ok t ∧
    ((∃ i < a.network.size, i ∉ t.keptIndices) ∨
      ∃ slot < a.network.linkCount, slot ∉ t.links.map KeptLink.slot)

theorem nestsCuts (ha : a.Derived) : a.NestsCuts where
  limits := by
    intro mode limit limit' hpos hle
    have hpos' := hpos.trans hle
    exact ⟨_, _, trim_of_ne_zero (Nat.ne_of_gt hpos), trim_of_ne_zero (Nat.ne_of_gt hpos'),
      keptOpinions_sublist (a := a.setMode mode) hle,
      keptLinks_sublist hle (ha.setMode mode)⟩
  modes := by
    intro limit hpos
    have hne := Nat.ne_of_gt hpos
    exact ⟨_, _, _, trim_of_ne_zero hne, trim_of_ne_zero hne, trim_of_ne_zero hne, rfl, rfl,
      keptLinks_degrees_sublist_spaeth, slot_keptLinks_genealogy_subset_spaeth ha⟩
  all_kept := by
    have hbelow : a.degrees.max.isBelow (a.degrees.max.index + 1) = true :=
      Degree.isBelow_iff.mpr (Nat.lt_succ_self _)
    obtain ⟨hopinions, hlinks⟩ :=
      kept_of_isBelow_max (ha.setMode .degrees) (Nat.le_add_left 1 _) rfl hbelow
    exact ⟨_, trim_of_ne_zero (Nat.succ_ne_zero _), hopinions,
      (congrArg _ hlinks).trans map_slot_citationLinks⟩
  some_lost := by
    intro limit hpos hlt
    have hnot : ¬ a.degrees.max.isBelow limit = true := fun hbelow =>
      Nat.not_lt_of_le (Nat.le_of_lt_succ hlt) (Degree.isBelow_iff.mp hbelow)
    exact ⟨_, trim_of_ne_zero (Nat.ne_of_gt hpos),
      exists_not_kept (ha.setMode .degrees) hpos rfl hnot⟩

/-- **Cuts are nested,** for every list of records that is accepted and all requests that have gone
before. -/
theorem build_nestsCuts {records : List OpinionRecord} {settings : Settings}
    (h : build records settings = .ok a) (requests : List AtlasRequest) :
    (a.performAll requests).NestsCuts := nestsCuts (derived_performAll h requests)

/-- Four records, of which the last cites the two in the middle and the third cites the second. -/
def chordRecords : List OpinionRecord :=
  [OpinionRecord.new (.number 1) "1900-01-01",
    { OpinionRecord.new (.number 2) "1901-01-01" with cited := .ofIds [.number 1] },
    { OpinionRecord.new (.number 3) "1902-01-01" with cited := .ofIds [.number 1, .number 2] },
    { OpinionRecord.new (.number 4) "1903-01-01" with cited := .ofIds [.number 2, .number 3] }]

/-- The link of the two opinions in the middle is the only thing of third degree. A limit of two
keeps all opinions and leaves the link out in degrees mode, but keeps it in Spaeth mode, and in
genealogy mode because it leads to a parent. -/
theorem build_nestsCuts_chordRecords : ∃ a, build chordRecords .default = .ok a ∧
    (a.degrees.max = .third ∧
      ((a.setMode .degrees).keptLinks 2).map KeptLink.slot = [0, 1, 3, 4] ∧
      ((a.setMode .spaeth).keptLinks 2).map KeptLink.slot = [0, 1, 2, 3, 4] ∧
      ((a.setMode .genealogy).keptLinks 2).map KeptLink.slot = [1, 0, 2, 4]) ∧
    (a.performAll [.setMode .spaeth]).NestsCuts := by
  have hbuild : ∀ settings, (build chordRecords settings).toOption.map (fun a =>
      (a.degrees.max, ((a.setMode .degrees).keptLinks 2).map KeptLink.slot,
        ((a.setMode .spaeth).keptLinks 2).map KeptLink.slot,
        ((a.setMode .genealogy).keptLinks 2).map KeptLink.slot)) =
      some (.third, [0, 1, 3, 4], [0, 1, 2, 3, 4], [1, 0, 2, 4]) := by
    intro settings
    cbv
  obtain ⟨a, hok, hall⟩ := exists_ok_of_map_toOption (hbuild .default)
  obtain ⟨hmax, hrest⟩ := Prod.mk.inj hall
  obtain ⟨hdegrees, hrest⟩ := Prod.mk.inj hrest
  exact ⟨a, hok, ⟨hmax, hdegrees, Prod.mk.inj hrest⟩, build_nestsCuts hok _⟩

end Atlas

end Precedent
