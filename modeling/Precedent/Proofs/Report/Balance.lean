import Precedent.Chart.Basic
import Precedent.Report
import Precedent.Proofs.Genealogy.Counts
import Precedent.Proofs.Json.Members
import Precedent.Proofs.Network.Counts
import Precedent.Proofs.Trim.Kept

/-!
# Precedent.Proofs.Report.Balance

**The counts of a summary balance.** `Json.summaryCounts?` reads the counts of a map back from its
summary. Every citation of a record is counted once, as one that leads nowhere, as one of the
opinion itself or as one of the network; every opinion has one degree and one parent or none; and a
cut keeps the opinions of the nearest degrees, each of which has a point in the chart.
-/

namespace Precedent

/-! ### Reading a summary -/

namespace Json

/-- The value at a path of names. -/
def valueAt? : List String → Json → Option Json
  | [], v => some v
  | name :: path, v => (v.member? name).bind (valueAt? path)

/-- The natural number at a path of names. -/
def countAt? (path : List String) (v : Json) : Option Nat :=
  match v.valueAt? path with
  | some (.int (.ofNat n)) => some n
  | _ => none

@[simp] theorem countAt?_nat (n : Nat) : countAt? [] (canonical (.nat n)) = some n := rfl

@[simp] theorem countAt?_cons (name : String) (path : List String)
    (members : List (String × Json)) :
    countAt? (name :: path) (canonical (.object members)) =
      (members.reverse.find? fun m => m.1 == name).bind fun m => countAt? path (canonical m.2) := by
  rw [countAt?, valueAt?, member?_canonical]
  cases members.reverse.find? fun m => m.1 == name <;> rfl

end Json

/-- The counts of a summary. -/
structure SummaryCounts where
  opinions : Nat
  citations : Nat
  links : Nat
  dangling : Nat
  ofSelf : Nat
  /-- How many links stand for two citations. -/
  folded : Nat
  /-- How many opinions have each degree, the nearest first. -/
  histogram : List Nat
  kept : Nat
  orphans : Nat
  /-- How many parents each rule has chosen. -/
  rules : List Nat
deriving DecidableEq, Repr

/-- The counts that a summary gives. -/
def Json.summaryCounts? (v : Json) : Option SummaryCounts := do
  let opinions ← v.countAt? ["graph_stats", "opinion_count"]
  let citations ← v.countAt? ["graph_stats", "citation_count"]
  let links ← v.countAt? ["graph_stats", "link_count"]
  let dangling ← v.countAt? ["graph_stats", "dangling_citations"]
  let ofSelf ← v.countAt? ["graph_stats", "self_citations"]
  let folded ← v.countAt? ["graph_stats", "mutual_citations"]
  let histogram ← Degree.all.mapM fun d => v.countAt? ["degree_stats", "histogram", d.label]
  let kept ← v.countAt? ["trim", "kept_opinions"]
  let orphans ← v.countAt? ["genealogy", "orphans"]
  let rules ← SelectionRule.all.mapM fun rule => v.countAt? ["genealogy", "rules", rule.name]
  pure ⟨opinions, citations, links, dangling, ofSelf, folded, histogram, kept, orphans, rules⟩

/-! ### Degrees -/

/-- The first degrees are those below the limit. -/
theorem Degree.contains_take_all (d : Degree) (limit : Nat) :
    (Degree.all.take limit).contains d = d.isBelow limit := by
  match limit with
  | 0 | 1 | 2 | 3 | 4 | 5 | 6 | 7 | 8 | 9 => cases d <;> rfl
  | n + 10 => cases d <;> simp [all, isBelow, index]

namespace Degrees

/-- The first entries of the histogram count the opinions of the nearest degrees. -/
theorem sum_take_histogram (d : Degrees) (limit : Nat) :
    ((d.histogram.take limit).map Prod.snd).sum =
      d.nodes.toList.countP fun degree => degree.isBelow limit := by
  have hnodup : (Degree.all.take limit).Nodup :=
    List.Nodup.sublist (List.take_sublist ..) (show Degree.all.Nodup by decide)
  simp only [histogram, ← List.map_take, List.map_map, Function.comp_def]
  rw [sum_map_count hnodup]
  simp only [Degree.contains_take_all]

theorem sum_histogram (d : Degrees) : (d.histogram.map Prod.snd).sum = d.nodes.size := by
  have htake := d.sum_take_histogram 10
  have hbelow : ∀ degree : Degree, degree.isBelow 10 = true := by
    intro degree
    cases degree <;> rfl
  rw [List.take_of_length_le (by rw [histogram, List.length_map]; decide)] at htake
  rw [htake, List.countP_congr (q := fun _ => true) (fun degree _ => by simp [hbelow]),
    List.countP_true, Array.length_toList]

end Degrees

namespace Atlas

variable {a : Atlas} {records : List OpinionRecord} {settings : Settings} {limit : Nat}

/-! ### The summary of a cut -/

/-- The summary of a cut gives the counts of its map. -/
theorem summaryCounts?_summary (a : Atlas) (t : TrimmedMap) :
    (a.summary t).summaryCounts? = some
      { opinions := a.network.size
        citations := a.network.citationCount
        links := a.network.linkCount
        dangling := a.network.tally.dangling
        ofSelf := a.network.tally.ofSelf
        folded := a.network.tally.folded
        histogram := a.degrees.histogram.map Prod.snd
        kept := t.opinions.length
        orphans := a.genealogy.orphanCount
        rules := a.genealogy.ruleCounts.map Prod.snd } := by
  simp [summary, Network.countsJson, Degrees.json, TrimmedMap.countsJson, Genealogy.countsJson,
    Json.summaryCounts?, Degrees.histogram, Degree.all, Degree.label, Genealogy.ruleCounts,
    SelectionRule.all, SelectionRule.name]

/-! ### Opinions that are kept -/

/-- An atlas with a degree for each opinion keeps as many as have one below the limit. -/
theorem length_keptOpinions (hsize : a.degrees.nodes.size = a.network.size) :
    (a.keptOpinions limit).length = ((a.degrees.histogram.take limit).map Prod.snd).sum := by
  rw [← List.length_map KeptOpinion.index, map_index_keptOpinions, ← List.countP_eq_length_filter,
    ← hsize, ← Array.length_toList, Degrees.sum_take_histogram]
  refine countP_range_eq_countP fun i d hd => ?_
  rw [Array.getElem?_toList] at hd
  rw [keeps, Degrees.node, hd, Option.getD_some]

/-- Every opinion that is kept has a point in the chart. -/
theorem length_points_chart {t : TrimmedMap} (ht : t.opinions = a.keptOpinions limit) :
    (a.chart t settings).points.length = t.opinions.length := by
  rw [chart, List.length_map, pointTable, List.filterMap_length_eq_length]
  intro kept hkept
  rw [ht] at hkept
  rw [point?, Array.getElem?_eq_getElem (index_lt_of_mem_keptOpinions hkept)]
  rfl

/-- The counts of the summary of a cut agree with each other, with the records, with the network and
with the chart. -/
structure Balances (a : Atlas) (records : List OpinionRecord) (limit : Nat) (t : TrimmedMap)
    (c : SummaryCounts) : Prop where
  opinions : c.opinions = records.length
  /-- Every entry of the citations of a record is counted once. -/
  entries : (records.map fun r => r.cited.entries.length).sum = c.dangling + c.ofSelf + c.citations
  sum_outDegree : ((List.range c.opinions).map a.network.outDegree).sum = c.citations
  sum_inDegree : ((List.range c.opinions).map a.network.inDegree).sum = c.citations
  /-- The two citations of a mutual link share it. -/
  links_add_folded : c.links + c.folded = c.citations
  links : c.links = a.network.links.size
  folded : c.folded = a.network.links.toList.countP Link.isMutual
  length_histogram : c.histogram.length = 10
  sum_histogram : c.histogram.sum = c.opinions
  /-- Every opinion has a parent by one of the rules, or none. -/
  sum_rules : c.rules.sum + c.orphans = c.opinions
  orphans : c.orphans = (List.range c.opinions).countP a.network.isIsolated
  /-- The opinions of the nearest degrees are kept, as many degrees as the limit says. -/
  kept : c.kept = (c.histogram.take limit).sum
  points : ∀ settings, (a.chart t settings).points.length = c.kept

/-- **The counts of every summary balance**, for every list of records that is accepted, every mode
and every cut. -/
theorem summary_balances (h : build records settings = .ok a) (mode : Mode) {t : TrimmedMap}
    (htrim : (a.setMode mode).trim limit = .ok t) :
    ∃ c, ((a.setMode mode).summary t).summaryCounts? = some c ∧
      (a.setMode mode).Balances records limit t c := by
  obtain ⟨g, hrecords, rfl⟩ := build_eq_ok h
  obtain ⟨hperm, hg⟩ := Network.ofRecords_drawn hrecords
  have htallied := Network.ofRecords_tallied hrecords
  have hne : limit ≠ 0 := by
    rintro rfl
    cases htrim
  obtain rfl := Except.ok.inj ((trim_of_ne_zero hne).symm.trans htrim)
  have hdegrees : g.degrees.nodes.size = g.size := Array.size_ofFn
  have hsize : g.size = records.length := by
    rw [← hperm.length_eq, List.length_map]
    rfl
  have hentries : (records.map fun r => r.cited.entries.length).sum =
      g.tally.dangling + g.tally.ofSelf + g.citationCount := by
    rw [← htallied.citations, ← (hperm.map _).sum_eq, List.map_map]
    simp [Function.comp_def, Citations.ids]
  have hfolded : g.tally.folded = g.links.toList.countP Link.isMutual := by
    rw [htallied.folded, Citing.countP_not_opens, hg.countP_isMutual]
  have hlinks : g.linkCount + g.tally.folded = g.citationCount := by
    rw [htallied.folded, hg.linkCount_eq, hg.citationCount_eq_length, Citing.length_openings_add]
  exact ⟨_, summaryCounts?_summary .., {
    opinions := hsize
    entries := hentries
    sum_outDegree := hg.sum_outDegree
    sum_inDegree := hg.sum_inDegree
    links_add_folded := hlinks
    links := rfl
    folded := hfolded
    length_histogram := by simp [Degrees.histogram, Degree.all]
    sum_histogram := (Degrees.sum_histogram _).trans hdegrees
    sum_rules := g.sum_ruleCounts_add_orphanCount
    orphans := g.orphanCount_genealogy
    kept := by rw [← List.map_take]; exact length_keptOpinions hdegrees
    points := fun _ => length_points_chart rfl }⟩

/-- Five records make seven citations of each other; two of these are folded into the links of their
reverses, and two more citations are not kept. -/
theorem summary_balances_fiveRecords : ∃ a t c, build fiveRecords .default = .ok a ∧
    (a.setMode .spaeth).trim 3 = .ok t ∧
    ((a.setMode .spaeth).summary t).summaryCounts? = some c ∧
    (c.citations, c.folded, c.dangling, c.ofSelf) = (7, 2, 1, 1) ∧
    (a.setMode .spaeth).Balances fiveRecords 3 t c := by
  have hbuild : ∀ settings, (build fiveRecords settings).toOption.map (fun a =>
      (a.network.citationCount, a.network.tally.folded, a.network.tally.dangling,
        a.network.tally.ofSelf)) = some (7, 2, 1, 1) := by
    intro settings
    cbv
  obtain ⟨a, hok, hcounts⟩ := exists_ok_of_map_toOption (hbuild .default)
  have htrim := trim_of_ne_zero (a := a.setMode .spaeth) (show 3 ≠ 0 by decide)
  obtain ⟨c, hc, hbalances⟩ := summary_balances hok .spaeth htrim
  obtain rfl := Option.some.inj (hc.symm.trans (summaryCounts?_summary ..))
  exact ⟨a, _, _, hok, htrim, hc, hcounts, hbalances⟩

end Atlas

end Precedent
