import Mathlib.Tactic.IntervalCases
import Precedent.Proofs.Chart.Rows

/-!
# Precedent.Proofs.Chart.Splits

**Which vote splits have a row in Spaeth mode.** The rows are a table of their own: the splits of
conservative and liberal decisions with up to four dissents, the unanimous one, and a row for votes
that are not known. A split is put together from any direction that is recorded and any number of
dissents that a bench of nine can have, so some opinions stand at a split without a row
(`OpinionRecord.LacksRow`), and the lines to them end there.
-/

namespace Precedent

/-! ### Vote splits -/

/-- The vote split of a decision with a number of dissents. -/
def Direction.split (d : Direction) (dissents : Nat) : String :=
  let majority := 9 - dissents
  match (if majority = 9 then some 'N' else d.letter?) with
  | some letter =>
    String.ofList (letter :: Text.digitsOf majority ++ '-' :: Text.digitsOf dissents)
  | none => OpinionRecord.unknownSplit

/-- The rows know the unanimous decision, and of the others those in one of two directions with no
more than four dissents. -/
theorem Direction.split_mem_spaethRows_iff {dissents : Nat} (hbench : dissents ≤ 9)
    (d : Direction) : d.split dissents ∈ spaethRows ↔
      dissents = 0 ∨ d = unknown ∨ ((d = conservative ∨ d = liberal) ∧ dissents ≤ 4) := by
  have htable : ∀ n ≤ 9, ∀ d ∈ Direction.all, d.split n ∈ spaethRows ↔
      n = 0 ∨ d = unknown ∨ ((d = conservative ∨ d = liberal) ∧ n ≤ 4) := by
    decide +kernel
  exact htable dissents hbench d (by cases d <;> decide)

namespace OpinionRecord

variable {r : OpinionRecord}

/-- Dissents and direction are recorded, but their split has no row: the decision is neutral or
unspecifiable, or the dissents are more than a minority of nine. A unanimous decision has its row
whatever its direction. -/
def LacksRow (r : OpinionRecord) : Prop :=
  ∃ dissents code : Int, r.votesMinority = some dissents ∧ r.decisionDirection = some code ∧
    1 ≤ dissents ∧ dissents ≤ 9 ∧ 0 ≤ code ∧ code ≤ 3 ∧ (code = 0 ∨ code = 3 ∨ 5 ≤ dissents)

/-- The recorded dissents count if a bench of nine can have them. -/
theorem minority?_eq_some_iff {n : Nat} :
    r.minority? = some n ↔ r.votesMinority = some (n : Int) ∧ n ≤ 9 := by
  rw [minority?]
  cases r.votesMinority with
  | none => simp
  | some dissents =>
      simp only [Bool.and_eq_true, decide_eq_true_eq, Option.ite_none_right_eq_some,
        Option.some.injEq]
      omega

theorem voteSplit_of_minority? {n : Nat} (h : r.minority? = some n) :
    r.voteSplit = r.direction.split n := by
  rw [voteSplit, h]
  rfl

theorem voteSplit_of_minority?_eq_none (h : r.minority? = none) : r.voteSplit = unknownSplit := by
  rw [voteSplit, h]

/-- A direction is known by its code. -/
theorem direction_eq_of_code {code : Int} (h : r.decisionDirection = some code) :
    (r.direction = .unknown ↔ ¬ (0 ≤ code ∧ code ≤ 3)) ∧
      (r.direction = .conservative ↔ code = 1) ∧ (r.direction = .liberal ↔ code = 2) := by
  rw [direction, h]
  by_cases hrange : 0 ≤ code ∧ code ≤ 3
  · obtain ⟨hnonneg, hle⟩ := hrange
    interval_cases code <;> decide
  · have hunknown : Direction.ofCode (some code) = .unknown := by
      rw [Direction.ofCode.eq_def]
      split
      case h_5 => rfl
      all_goals
        next heq =>
          cases heq
          omega
    rw [hunknown]
    refine ⟨iff_of_true rfl hrange, iff_of_false (by decide) ?_, iff_of_false (by decide) ?_⟩ <;>
      omega

/-- A vote split has a row just if the record does not lack one. -/
theorem voteSplit_mem_spaethRows_iff : r.voteSplit ∈ spaethRows ↔ ¬ r.LacksRow := by
  cases hminority : r.minority? with
  | none =>
      rw [voteSplit_of_minority?_eq_none hminority]
      refine iff_of_true (by decide) ?_
      rintro ⟨dissents, code, hdissents, -, hle, hbench, -⟩
      have hsome : r.minority? = some dissents.toNat :=
        minority?_eq_some_iff.mpr ⟨hdissents.trans (congrArg some (by omega)), by omega⟩
      rw [hminority] at hsome
      cases hsome
  | some n =>
      obtain ⟨hdissents, hbench⟩ := minority?_eq_some_iff.mp hminority
      rw [voteSplit_of_minority? hminority, Direction.split_mem_spaethRows_iff hbench]
      cases hcode : r.decisionDirection with
      | none =>
          have hunknown : r.direction = .unknown := by
            rw [direction, hcode]
            rfl
          refine iff_of_true (Or.inr (Or.inl hunknown)) ?_
          rintro ⟨_, _, -, hsome, -⟩
          rw [hcode] at hsome
          cases hsome
      | some code =>
          obtain ⟨hunknown, hconservative, hliberal⟩ := direction_eq_of_code hcode
          rw [hunknown, hconservative, hliberal, LacksRow, hdissents, hcode]
          simp only [Option.some.injEq, existsAndEq, true_and]
          omega

end OpinionRecord

/-! ### Charts in Spaeth mode -/

/-- What the rows of a chart in Spaeth mode hold. -/
structure Chart.HoldsSplits (c : Chart) (records : List OpinionRecord) : Prop where
  levels : c.levels = spaethRows.map .split
  /-- A point stands at the vote split of its record, which has a row unless the record lacks
  one. -/
  points : ∀ p ∈ c.points, ∃ r ∈ records, p.id = r.id ∧ p.y = .split r.voteSplit ∧
    (p.y ∈ c.levels ↔ ¬ r.LacksRow)
  /-- Lines end at points and nowhere else. -/
  segments : ∀ s ∈ c.segments, ∃ p ∈ c.points, ∃ q ∈ c.points,
    s.source = p.anchor ∧ s.target = q.anchor

namespace Atlas

variable {a : Atlas} {t : TrimmedMap} {settings : Settings} {limit : Nat}

section

variable (hmode : t.mode = .spaeth)
include hmode

theorem levels_of_spaeth : levels t = spaethRows.map .split := by
  rw [levels, hmode]

theorem split_mem_levels {r : OpinionRecord} :
    Level.split r.voteSplit ∈ levels t ↔ ¬ r.LacksRow := by
  rw [levels_of_spaeth hmode, List.mem_map_of_injective fun _ _ => Level.split.inj]
  exact OpinionRecord.voteSplit_mem_spaethRows_iff

/-- A point stands at the vote split of its opinion. -/
theorem exists_level_of_point? {k : KeptOpinion} {p : ChartPoint} (h : a.point? t k = some p) :
    ∃ o ∈ a.network.opinions, p.id = o.id ∧ p.y = .split o.record.voteSplit := by
  obtain ⟨o, ho, rfl⟩ := Option.map_eq_some_iff.mp h
  refine ⟨o, Array.mem_of_getElem? ho, rfl, ?_⟩
  show levelOf t o k.position = _
  rw [levelOf, hmode]

theorem chart_holdsSplits {records : List OpinionRecord} (ha : a.Derived)
    (hrecords : ∀ o ∈ a.network.opinions, o.record ∈ records) (htrim : a.trim limit = .ok t) :
    (a.chart t settings).HoldsSplits records where
  levels := levels_of_spaeth hmode
  points p hp := by
    obtain ⟨k, -, hpoint⟩ := exists_of_mem_points htrim hp
    obtain ⟨o, ho, hid, hy⟩ := exists_level_of_point? hmode hpoint
    exact ⟨o.record, hrecords o ho, hid, hy, hy ▸ split_mem_levels hmode⟩
  segments s hs := by
    obtain ⟨drawn, -, -, hlines⟩ := (chart_shows settings ha htrim).citations hmode
    obtain ⟨i, hi⟩ := List.getElem?_of_mem hs
    obtain ⟨e, -, hleads, -⟩ := exists_getElem?_of_forall₂ hlines.flip hi
    exact hleads.exists_points

end

/-! ### Charts of a map -/

/-- **Opinions stand at rows unless their records lack one,** for every list of records that is
accepted, every cut in Spaeth mode, and all requests that go before the cut or before the chart. -/
theorem build_chart_holdsSplits {records : List OpinionRecord}
    (h : build records settings = .ok a) (before after : List AtlasRequest)
    (htrim : (a.performAll before).trim limit = .ok t) (hmode : t.mode = .spaeth)
    (chosen : Settings) : ((a.performAll after).chart t chosen).HoldsSplits records := by
  have hrecords : ∀ o ∈ (a.performAll before).network.opinions, o.record ∈ records := by
    obtain ⟨g, hg, rfl⟩ := build_eq_ok h
    rw [network_performAll]
    exact fun o => Network.record_mem_of_mem_opinions hg
  rw [chart_performAll, ← chart_performAll chosen before]
  exact chart_holdsSplits hmode (derived_performAll h before) hrecords htrim

/-- An unspecifiable decision with three dissents, and a conservative one with four that cites
it. -/
def splitRecords : List OpinionRecord :=
  [{ OpinionRecord.new (.number 1) "1950-01-01" with
      decisionDirection := some 3
      votesMinority := some 3 },
    { OpinionRecord.new (.number 2) "1960-01-01" with
      decisionDirection := some 1
      votesMinority := some 4
      cited := .ofIds [.number 1] }]

theorem exists_chart_splitRecords (chosen : Settings) :
    ∃ a t, build splitRecords .default = .ok a ∧
      (a.performAll [.setMode .spaeth]).trim 2 = .ok t ∧ t.mode = .spaeth ∧
      (a.chart t chosen).points.map ChartPoint.y = [.split "U6-3", .split "C5-4"] ∧
      (a.chart t chosen).segments.map (fun s => s.target.y) = [.split "U6-3"] := by
  have hbuild : ∀ settings, (build splitRecords settings).toOption.map (fun a =>
      ((a.performAll [.setMode .spaeth]).trim 2).toOption.map fun t =>
        (t.mode, (a.chart t chosen).points.map ChartPoint.y,
          (a.chart t chosen).segments.map fun s => s.target.y)) =
      some (some (.spaeth, [.split "U6-3", .split "C5-4"], [.split "U6-3"])) := by
    intro settings
    cbv
  obtain ⟨a, hok, hcut⟩ := exists_ok_of_map_toOption (hbuild .default)
  obtain ⟨t, htrim, hall⟩ := exists_ok_of_map_toOption hcut
  obtain ⟨hmode, hlevels⟩ := Prod.mk.inj hall
  exact ⟨a, t, hok, htrim, hmode, Prod.mk.inj hlevels⟩

theorem build_chart_holdsSplits_splitRecords : ∃ a t, build splitRecords .default = .ok a ∧
    (a.performAll [.setMode .spaeth]).trim 2 = .ok t ∧ t.mode = .spaeth ∧
    ((a.performAll []).chart t .default).HoldsSplits splitRecords := by
  obtain ⟨a, t, hok, htrim, hmode, -⟩ := exists_chart_splitRecords .default
  exact ⟨a, t, hok, htrim, hmode,
    build_chart_holdsSplits hok [.setMode .spaeth] [] htrim hmode .default⟩

/-- **Not every opinion stands at a row.** The point of the first decision, and with it the end of
the line from the second one, is at none of the levels of the chart. -/
theorem exists_chart_level_notMem : ∃ a t, build splitRecords .default = .ok a ∧
    (a.performAll [.setMode .spaeth]).trim 2 = .ok t ∧ t.mode = .spaeth ∧
    (∃ p ∈ (a.chart t .default).points, p.y ∉ (a.chart t .default).levels) ∧
    ∃ s ∈ (a.chart t .default).segments, s.target.y ∉ (a.chart t .default).levels := by
  obtain ⟨a, t, hok, htrim, hmode, hpoints, hsegments⟩ := exists_chart_splitRecords .default
  have hlevels : (a.chart t .default).levels = spaethRows.map .split := levels_of_spaeth hmode
  have hnone : Level.split "U6-3" ∉ (a.chart t .default).levels := by
    rw [hlevels]
    decide
  obtain ⟨p, hp, hy⟩ : ∃ p ∈ (a.chart t .default).points, p.y = .split "U6-3" :=
    List.mem_map.mp (hpoints ▸ List.mem_cons_self)
  obtain ⟨s, hs, htarget⟩ : ∃ s ∈ (a.chart t .default).segments, s.target.y = .split "U6-3" :=
    List.mem_map.mp (hsegments ▸ List.mem_cons_self)
  exact ⟨a, t, hok, htrim, hmode, ⟨p, hp, hy ▸ hnone⟩, s, hs, htarget ▸ hnone⟩

end Atlas

end Precedent
