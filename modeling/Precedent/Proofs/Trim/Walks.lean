import Precedent.Proofs.Trim.Kept

/-!
# Precedent.Proofs.Trim.Walks

**What a limit means.** Cutting a map down to a limit from one to nine keeps the two roots and
every opinion that a citation walk within the limit visits, whatever the mode; in degrees mode it
keeps the links that such a walk crosses. That both ends of a link have to be kept matters for
mutual links only: their two depths may belong to two different citations, and then it is the end
under the limit that a walk can turn at.
-/

namespace Precedent

/-- A cut keeps what the citation walks within its limit come by. -/
structure TrimmedMap.FollowsWalks (t : TrimmedMap) (g : Network) : Prop where
  /-- The opinions are the roots and those that a walk visits. -/
  opinions : ∀ i, i ∈ t.opinions.map KeptOpinion.index ↔
    i = Network.earliest ∨ i = g.latest ∨
      ∃ w : CitationWalk g, w.length ≤ t.limit ∧ w.Visits i
  /-- In degrees mode the links are those of which a walk crosses a citation. -/
  links : t.mode = .degrees → ∀ slot, slot ∈ t.links.map KeptLink.slot ↔
    ∃ l, g.links[slot]? = some l ∧ ∃ w : CitationWalk g, w.length ≤ t.limit ∧
      (w.Crosses l.citing l.cited ∨ (l.isMutual = true ∧ w.Crosses l.cited l.citing))

/-- Only a mutual link can be crossed from its cited to its citing opinion. -/
theorem Network.Drawn.crosses_iff {g : Network} (hg : g.Drawn) {slot : Nat} {l : Link}
    (hl : g.links[slot]? = some l) {w : CitationWalk g} :
    (w.Crosses l.citing l.cited ∨ (l.isMutual = true ∧ w.Crosses l.cited l.citing)) ↔
      (w.Crosses l.citing l.cited ∨ w.Crosses l.cited l.citing) := by
  have hmem := Array.mem_of_getElem? hl
  refine or_congr_right (and_iff_right_of_imp fun hcrosses => ?_)
  exact (hg.collapsesCitations.isMutual_iff l hmem).mpr
    ⟨hg.collapsesCitations.cites l hmem, hcrosses.cites⟩

namespace Atlas

/-- **Trimming follows the citation walks**, for every list of records that is accepted, every mode
and every limit from one to nine. -/
theorem trim_followsWalks {records : List OpinionRecord} {settings : Settings} {a : Atlas}
    (h : build records settings = .ok a) (mode : Mode) {limit : Nat} (hpos : 1 ≤ limit)
    (hle : limit ≤ 9) :
    ∃ t, (a.setMode mode).trim limit = .ok t ∧ t.limit = limit ∧ t.mode = mode ∧
      t.FollowsWalks a.network := by
  obtain ⟨g, hrecords, rfl⟩ := build_eq_ok h
  obtain ⟨-, hg⟩ := Network.ofRecords_drawn hrecords
  refine ⟨_, trim_of_ne_zero (Nat.ne_of_gt hpos), rfl, rfl, fun i => ?_, fun hmode slot => ?_⟩
  · rw [mem_index_keptOpinions]
    show i < g.size ∧ (g.degrees.node i).isBelow limit = true ↔ _
    constructor
    · intro hi
      exact (hg.isBelow_node_iff hpos hle hi.1).mp hi.2
    · intro hi
      have hlt : i < g.size := by
        rcases hi with rfl | rfl | ⟨w, -, hvisits⟩
        · exact hg.earliest_lt
        · exact hg.latest_lt
        · exact hg.lt_of_visits hvisits
      exact ⟨hlt, (hg.isBelow_node_iff hpos hle hlt).mpr hi⟩
  · rw [mem_slot_keptLinks hmode]
    refine exists_congr fun l => and_congr_right fun hl => ?_
    refine (hg.isBelow_ends_and_link_iff hpos hle hl).trans ?_
    exact exists_congr fun w => and_congr_right fun _ => (hg.crosses_iff hl).symm

/-- The third of five opinions is visited by walks over four citations only. -/
theorem trim_fiveRecords : ∃ a t, build fiveRecords .default = .ok a ∧
    (a.setMode .degrees).trim 3 = .ok t ∧ (t.opinions.map KeptOpinion.index = [0, 1, 3, 4] ∧
      t.links.map KeptLink.slot = [0, 3, 4]) ∧ t.FollowsWalks a.network := by
  have hbuild : ∀ settings, (build fiveRecords settings).toOption.map (fun a =>
      ((a.setMode .degrees).trim 3).toOption.map fun t =>
        (t.opinions.map KeptOpinion.index, t.links.map KeptLink.slot)) =
      some (some ([0, 1, 3, 4], [0, 3, 4])) := by
    intro settings
    cbv
  obtain ⟨a, hok, hkept⟩ := exists_ok_of_map_toOption (hbuild .default)
  obtain ⟨t, htrim, -, -, hfollows⟩ :=
    trim_followsWalks hok .degrees (show 1 ≤ 3 by decide) (show 3 ≤ 9 by decide)
  rw [htrim] at hkept
  exact ⟨a, t, hok, htrim, Prod.mk.inj (Option.some.inj hkept), hfollows⟩

end Atlas

end Precedent
