import Precedent.Proofs.Chart.Lines
import Precedent.Proofs.Chart.Spread
import Precedent.Proofs.Network.Nearness
import Precedent.Proofs.Network.Unresolved

/-!
# Precedent.Proofs.Chart.Rows

**A chart of rows is consistent with itself.** Outside Spaeth mode the points of a chart are spread
over rows, by their number and their places. Whatever stands in the chart is announced beside it:
every row is among the levels, and every degree is in the legend, which goes up to the farthest
degree of the whole map, so no cut can show a farther one.
-/

namespace Precedent

/-- A chart whose points are spread over rows agrees with its levels and with its legend. -/
structure Chart.IsConsistent (c : Chart) (t : TrimmedMap) (s : Spread) : Prop where
  /-- The turn is the side of the smallest square that has room for the opinions that are kept. -/
  turn : IsLeast {side | t.opinions.length ≤ side * side} s.turn
  /-- The pattern has a row for every place between the first and the last. -/
  row_found : ∀ position, 1 < position → position < t.opinions.length →
    s.rows[(position - 2) % s.turn]? = some (s.row position t.opinions.length)
  length_points : c.points.length = t.opinions.length
  /-- A point stands in the row of its place. -/
  point_row : ∀ (i : Nat) (p : ChartPoint), c.points[i]? = some p →
    p.y = .row (s.row (i + 1) t.opinions.length)
  point_level : ∀ p ∈ c.points, p.y ∈ c.levels
  segment_level : ∀ l ∈ c.segments, l.source.y ∈ c.levels ∧ l.target.y ∈ c.levels
  /-- The first and the last point alone are in the top row. -/
  topRow_iff : ∀ (i : Nat) (p : ChartPoint), c.points[i]? = some p →
    (p.y = .row s.topRow ↔ i = 0 ∨ i + 1 = t.opinions.length)
  /-- The levels go down from the top row to the first one. -/
  levels : ∀ i, c.levels[i]? = if i < s.topRow then some (.row (s.topRow - i)) else none
  point_legend : ∀ p ∈ c.points, p.degree.label ∈ c.legend
  segment_legend : ∀ l ∈ c.segments, l.colour ∈ c.legend

namespace Atlas

variable {a : Atlas} {t : TrimmedMap} {settings : Settings} {limit : Nat}

/-! ### Levels -/

section

variable (hmode : t.mode ≠ .spaeth)
include hmode

theorem levels_of_ne_spaeth : levels t =
    (List.range' 1 (Spread.ofCount t.opinions.length).topRow).reverse.map .row := by
  rw [levels]
  split
  · exact absurd ‹_› hmode
  · rfl
  · rfl

theorem getElem?_levels (i : Nat) : (levels t)[i]? =
    if i < (Spread.ofCount t.opinions.length).topRow then
      some (.row ((Spread.ofCount t.opinions.length).topRow - i)) else none := by
  rw [levels_of_ne_spaeth hmode, List.getElem?_map]
  split
  case isTrue hlt =>
    rw [List.getElem?_reverse (by rwa [List.length_range']), List.getElem?_range' (by simp; omega),
      List.length_range']
    exact congrArg (some ∘ Level.row) (by omega)
  case isFalse hnot =>
    rw [List.getElem?_eq_none (by rw [List.length_reverse, List.length_range']; omega)]
    rfl

theorem row_mem_levels {r : Nat} : Level.row r ∈ levels t ↔
    1 ≤ r ∧ r ≤ (Spread.ofCount t.opinions.length).topRow := by
  rw [levels_of_ne_spaeth hmode, List.mem_map_of_injective (fun _ _ => Level.row.inj),
    List.mem_reverse, List.mem_range'_1]
  omega

/-- A point stands in the row of its place. -/
theorem level_of_point? {k : KeptOpinion} {p : ChartPoint} (h : a.point? t k = some p) :
    p.y = .row ((Spread.ofCount t.opinions.length).row k.position t.opinions.length) := by
  obtain ⟨o, -, rfl⟩ := Option.map_eq_some_iff.mp h
  show levelOf t o k.position = _
  rw [levelOf]
  split
  · exact absurd ‹_› hmode
  · rfl
  · rfl

theorem level_mem_of_point? (hcount : t.opinions.length < 2 ^ 32) {k : KeptOpinion}
    {p : ChartPoint} (h : a.point? t k = some p) : p.y ∈ levels t := by
  rw [level_of_point? hmode h, row_mem_levels hmode]
  exact Spread.row_bounds hcount

/-! ### The legend -/

/-- The legend has every degree that is not farther than the farthest one. -/
theorem label_mem_legend {d : Degree} (h : d ≤ a.degrees.max) : d.label ∈ a.legend t := by
  have hall : d ∈ Degree.all := by cases d <;> decide
  rw [legend]
  split
  · exact absurd ‹_› hmode
  all_goals exact List.mem_map_of_mem (List.mem_filter.mpr ⟨hall, decide_eq_true h⟩)

end

/-- An opinion that is kept is not farther than the farthest degree of the map. -/
theorem degree_le_max_of_mem_keptOpinions (ha : a.Derived) {k : KeptOpinion}
    (hk : k ∈ a.keptOpinions limit) : k.degree ≤ a.degrees.max := by
  rw [degree_of_mem_keptOpinions hk]
  exact Degrees.node_le_max ((index_lt_of_mem_keptOpinions hk).trans_eq ha.size_nodes.symm)

theorem degree_le_max_of_mem_keptLinks (ha : a.Derived) {k : KeptLink}
    (hk : k ∈ a.keptLinks limit) : k.degree ≤ a.degrees.max := by
  have hjoins := joinsAt_of_mem_keptLinks ha.drawn ha.genealogy hk
  rw [degree_of_mem_keptLinks ha.genealogy hk]
  exact Degrees.link_le_max (hjoins.slot_lt.trans_eq ha.size_links.symm)

/-! ### What stands in a chart -/

section

variable (htrim : a.trim limit = .ok t)
include htrim

/-- At every place of a chart stands the point of the opinion at this place of the cut. -/
theorem exists_of_getElem?_points {i : Nat} {p : ChartPoint}
    (hp : (a.chart t settings).points[i]? = some p) :
    ∃ k, (a.keptOpinions limit)[i]? = some k ∧ a.point? t k = some p := by
  rw [← opinions_of_trim htrim]
  exact exists_getElem?_of_forall₂ (forall₂_points _ (index_lt_of_trim htrim)).flip hp

theorem exists_of_mem_points {p : ChartPoint} (hp : p ∈ (a.chart t settings).points) :
    ∃ k ∈ a.keptOpinions limit, a.point? t k = some p := by
  obtain ⟨i, hi⟩ := List.getElem?_of_mem hp
  obtain ⟨k, hk, hpoint⟩ := exists_of_getElem?_points htrim hi
  exact ⟨k, List.mem_of_getElem? hk, hpoint⟩

/-- Every line is that of a link of the cut. -/
theorem exists_of_mem_segments (ha : a.Derived) (hmode : t.mode ≠ .spaeth) {l : Segment}
    (hl : l ∈ (a.chart t settings).segments) : ∃ k ∈ a.keptLinks limit,
      (a.chart t settings).Leads a.network settings t k.source k.target l ∧
        l.colour = k.degree.label := by
  obtain ⟨i, hi⟩ := List.getElem?_of_mem hl
  have hlines := (chart_shows settings ha htrim).links hmode
  obtain ⟨k, hk, hline⟩ := exists_getElem?_of_forall₂ hlines.flip hi
  exact ⟨k, links_of_trim htrim ▸ List.mem_of_getElem? hk, hline⟩

theorem chart_isConsistent (ha : a.Derived) (hmode : t.mode ≠ .spaeth)
    (hcount : t.opinions.length < 2 ^ 32) :
    (a.chart t settings).IsConsistent t (Spread.ofCount t.opinions.length) := by
  have hlevel : ∀ p ∈ (a.chart t settings).points, p.y ∈ levels t := by
    intro p hp
    obtain ⟨k, -, hpoint⟩ := exists_of_mem_points htrim hp
    exact level_mem_of_point? hmode hcount hpoint
  have hrow : ∀ (i : Nat) (p : ChartPoint), (a.chart t settings).points[i]? = some p →
      p.y = .row ((Spread.ofCount t.opinions.length).row (i + 1) t.opinions.length) := by
    intro i p hp
    obtain ⟨k, hk, hpoint⟩ := exists_of_getElem?_points htrim hp
    rw [level_of_point? hmode hpoint, position_of_getElem? hk]
  have hlength := (forall₂_points settings (index_lt_of_trim htrim)).length_eq.symm
  refine
    { turn := Spread.isLeast_turn hcount
      row_found := fun _ => Spread.getElem?_rows hcount
      length_points := hlength
      point_row := hrow
      point_level := hlevel
      segment_level := ?_
      topRow_iff := ?_
      levels := getElem?_levels hmode
      point_legend := ?_
      segment_legend := ?_ }
  · intro l hl
    obtain ⟨k, -, hleads, -⟩ := exists_of_mem_segments htrim ha hmode hl
    obtain ⟨p, hp, q, hq, hsource, htarget⟩ := hleads.exists_points
    rw [hsource, htarget]
    exact ⟨hlevel p hp, hlevel q hq⟩
  · intro i p hp
    have hlt := hlength ▸ (List.getElem?_eq_some_iff.mp hp).1
    rw [hrow i p hp, Level.row.injEq, Spread.row_eq_topRow_iff hcount]
    omega
  · intro p hp
    obtain ⟨k, hk, hpoint⟩ := exists_of_mem_points htrim hp
    rw [(standsFor_of_point? hpoint).degree]
    exact label_mem_legend hmode (degree_le_max_of_mem_keptOpinions ha hk)
  · intro l hl
    obtain ⟨k, hk, -, hcolour⟩ := exists_of_mem_segments htrim ha hmode hl
    rw [hcolour]
    exact label_mem_legend hmode (degree_le_max_of_mem_keptLinks ha hk)

end

/-! ### Charts of a map -/

/-- **A chart of rows is consistent with itself,** for every list of records that is accepted, every
cut outside Spaeth mode whose opinions a 32-bit word can count, and all requests that go before the
cut or before the chart. -/
theorem build_chart_isConsistent {records : List OpinionRecord} {settings : Settings}
    (h : build records settings = .ok a) (before after : List AtlasRequest)
    (htrim : (a.performAll before).trim limit = .ok t) (hmode : t.mode ≠ .spaeth)
    (hcount : t.opinions.length < 2 ^ 32) (chosen : Settings) :
    ((a.performAll after).chart t chosen).IsConsistent t
      (Spread.ofCount t.opinions.length) := by
  rw [chart_performAll, ← chart_performAll chosen before]
  exact chart_isConsistent htrim (derived_performAll h before) hmode hcount

/-- A turn of three has room for five opinions, so those in the middle go through the pattern once.
The fourth degree is the farthest one of the map. -/
theorem build_chart_isConsistent_fiveRecords : ∃ a t, build fiveRecords .default = .ok a ∧
    (a.performAll [.setMode .genealogy]).trim 4 = .ok t ∧
    (t.mode = .genealogy ∧ t.opinions.length = 5 ∧ Spread.ofCount 5 = ⟨3, [1, 2, 3]⟩ ∧
      a.legend t = ["first", "second", "third", "fourth"]) ∧
    ((a.performAll []).chart t .default).IsConsistent t (Spread.ofCount t.opinions.length) := by
  have hbuild : ∀ settings, (build fiveRecords settings).toOption.map (fun a =>
      ((a.performAll [.setMode .genealogy]).trim 4).toOption.map fun t =>
        (t.mode, t.opinions.length, a.legend t)) =
      some (some (.genealogy, 5, ["first", "second", "third", "fourth"])) := by
    intro settings
    cbv
  obtain ⟨a, hok, hcut⟩ := exists_ok_of_map_toOption (hbuild .default)
  obtain ⟨t, htrim, hall⟩ := exists_ok_of_map_toOption hcut
  obtain ⟨hmode, hrest⟩ := Prod.mk.inj hall
  obtain ⟨hlength, hlegend⟩ := Prod.mk.inj hrest
  have hne : t.mode ≠ .spaeth := by
    rw [hmode]
    decide
  have hcount : t.opinions.length < 2 ^ 32 := by
    rw [hlength]
    decide
  exact ⟨a, t, hok, htrim, ⟨hmode, hlength, by decide +kernel, hlegend⟩,
    build_chart_isConsistent hok [.setMode .genealogy] [] htrim hne hcount .default⟩

end Atlas

end Precedent
