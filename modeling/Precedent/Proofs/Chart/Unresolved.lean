import Precedent.Chart.Basic
import Precedent.Proofs.Network.Unresolved
import Precedent.Proofs.Trim.Kept

/-!
# Precedent.Proofs.Chart.Unresolved

**Citations that lead nowhere have no say in anything that is drawn.** Networks that differ in no
more than such citations have the same distances, degrees, parents and loops, since all of these are
made from the rows, the links and what else the records say. So every cut is the same. A chart does
look at the citations once more, for the opacity of its lines, but a line joins two different
opinions of the set, and of such citations there are none that lead nowhere.
-/

namespace Precedent

/-- An opinion, whatever it cites. -/
def Opinion.withoutCitations (o : Opinion) : Opinion :=
  { o with record := { o.record with cited := .empty } }

/-- Opinions at one place differ in what they cite. -/
theorem Opinion.SameResolved.exists_cited {ids : List OpinionId} {o o' : Opinion}
    (h : o.SameResolved ids o') :
    ∃ c, o' = { o with record := { o.record with cited := c } } := by
  obtain ⟨index, date, record⟩ := o'
  obtain ⟨rfl, rfl, hrecord⟩ := h
  exact ⟨record.cited, congrArg (Opinion.mk _ _) hrecord.rest⟩

namespace Network

/-! ### What is made from a network -/

namespace SameResolved

variable {g g' : Network} (h : g.SameResolved g')
include h

/-- At each place there is an opinion in both networks or in neither. -/
theorem getElem?_opinions (i : Nat) :
    (g.opinions[i]? = none ∧ g'.opinions[i]? = none) ∨
    ∃ o o', g.opinions[i]? = some o ∧ g'.opinions[i]? = some o' ∧
      o.SameResolved (g.opinions.toList.map Opinion.id) o' := by
  rw [← Array.getElem?_toList, ← Array.getElem?_toList]
  cases ho : g.opinions.toList[i]? with
  | none =>
      refine Or.inl ⟨rfl, ?_⟩
      rw [List.getElem?_eq_none_iff] at ho ⊢
      exact h.opinions.length_eq ▸ ho
  | some o =>
      obtain ⟨o', ho', hsame⟩ := exists_getElem?_of_forall₂ h.opinions ho
      exact Or.inr ⟨o, o', rfl, ho', hsame⟩

theorem map_withoutCitations :
    g'.opinions.map Opinion.withoutCitations = g.opinions.map Opinion.withoutCitations := by
  apply Array.ext_getElem?
  intro i
  rw [Array.getElem?_map, Array.getElem?_map]
  rcases h.getElem?_opinions i with ⟨ho, ho'⟩ | ⟨o, o', ho, ho', hsame⟩
  · rw [ho, ho']
  · obtain ⟨c, rfl⟩ := hsame.exists_cited
    rw [ho, ho']
    rfl

theorem size_eq : g'.size = g.size := h.opinions.length_eq.symm

theorem linkCount_eq : g'.linkCount = g.linkCount := congrArg Array.size h.links

theorem adjacency_eq (way : Way) : g'.adjacency way = g.adjacency way := by
  cases way with
  | cites => exact h.cites
  | citedBy => exact h.citedBy

theorem idAt?_eq (node : Nat) : g'.idAt? node = g.idAt? node := by
  unfold idAt?
  rcases h.getElem?_opinions node with ⟨ho, ho'⟩ | ⟨o, o', ho, ho', hsame⟩
  · rw [ho, ho']
  · obtain ⟨c, rfl⟩ := hsame.exists_cited
    rw [ho, ho']
    rfl

theorem directionAt_eq (node : Nat) : g'.directionAt node = g.directionAt node := by
  unfold directionAt
  rcases h.getElem?_opinions node with ⟨ho, ho'⟩ | ⟨o, o', ho, ho', hsame⟩
  · rw [ho, ho']
  · obtain ⟨c, rfl⟩ := hsame.exists_cited
    rw [ho, ho']
    rfl

theorem sweep_eq (way : Way) (root : Nat) : g'.sweep way root = g.sweep way root := by
  simp [sweep, h.size_eq, h.linkCount_eq, h.adjacency_eq]

theorem distances_eq : g'.distances = g.distances := by
  simp [distances, latest, h.size_eq, h.sweep_eq]

theorem reachTable_eq : g'.reachTable = g.reachTable := by
  apply Array.ext_getElem?
  intro i
  simp [reachTable, Array.getElem?_ofFn, h.size_eq, h.sweep_eq]

theorem loops_eq : g'.loops = g.loops := by
  have hid : g'.idAt? = g.idAt? := funext h.idAt?_eq
  simp [loops, loopIndices, loopOf, hid, h.size_eq, h.reachTable_eq]

theorem parentOf?_eq (child : Nat) : g'.parentOf? child = g.parentOf? child := by
  simp [parentOf?, latestNeighbour?, h.adjacency_eq, h.directionAt_eq]

theorem genealogy_eq : g'.genealogy = g.genealogy := by
  refine congrArg Genealogy.mk (Array.ext_getElem? fun i => ?_)
  simp [Array.getElem?_ofFn, h.size_eq, h.parentOf?_eq]

/-- The atlases differ in their networks only. -/
theorem ofNetwork_eq (settings : Settings) :
    Atlas.ofNetwork g' settings = { Atlas.ofNetwork g settings with network := g' } := by
  simp [Atlas.ofNetwork, h.distances_eq, h.size_eq, h.linkCount_eq, h.genealogy_eq, h.loops_eq]

end SameResolved

end Network

/-! ### What is drawn from an atlas -/

/-- Two atlases that show the same of everything but citations that lead nowhere. -/
structure Atlas.Undisturbed (a a' : Atlas) : Prop where
  /-- The same opinions stand in the same chronological order, whatever they cite. -/
  opinions : a'.network.opinions.map Opinion.withoutCitations =
    a.network.opinions.map Opinion.withoutCitations
  /-- The networks have the same rows in both directions, the same links and the same count of
  folded citations: only the stored records may differ, and the counts of citations that lead out of
  the set and of opinions by themselves. -/
  network : a'.network =
    { a.network with
      opinions := a'.network.opinions
      tally := { a'.network.tally with folded := a.network.tally.folded } }
  /-- The atlases have the same distances, degrees, parents and loops. -/
  rest : a' = { a with network := a'.network }
  /-- Every cut is the same. -/
  trim : ∀ mode limit, (a'.setMode mode).trim limit = (a.setMode mode).trim limit
  /-- Every chart of a cut is the same. -/
  chart : ∀ mode limit t, (a.setMode mode).trim limit = .ok t → ∀ settings,
    (a'.setMode mode).chart t settings = (a.setMode mode).chart t settings

namespace Atlas

section Charts

variable {a : Atlas} {g : Network} (h : a.network.SameResolved g)
include h

/-- Whatever its limit, a cut is made from what the two atlases have in common. -/
theorem trim_with_network (limit : Nat) : trim { a with network := g } limit = a.trim limit := by
  have hopinions : keptOpinions { a with network := g } limit = a.keptOpinions limit := by
    unfold keptOpinions
    dsimp only
    rw [h.size_eq]
    rfl
  have hlinks : keptLinks { a with network := g } limit = a.keptLinks limit := by
    unfold keptLinks citationLinks
    dsimp only
    rw [h.links]
    rfl
  simp only [trim, hopinions, hlinks]

theorem pointTable_with_network (t : TrimmedMap) :
    pointTable { a with network := g } t = a.pointTable t := by
  refine List.filterMap_congr fun kept _ => congrArg (Option.map _) ?_
  simp only [point?, Network.inDegree, h.citedBy]
  rcases h.getElem?_opinions kept.index with ⟨ho, ho'⟩ | ⟨o, o', ho, ho', hsame⟩
  · rw [ho, ho']
  · obtain ⟨c, rfl⟩ := hsame.exists_cited
    rw [ho, ho']
    rfl

theorem colourTo_with_network (t : TrimmedMap) (target : Nat) (degree : Degree) :
    colourTo { a with network := g } t target degree = a.colourTo t target degree := by
  unfold colourTo
  dsimp only
  rcases h.getElem?_opinions target with ⟨ho, ho'⟩ | ⟨o, o', ho, ho', hsame⟩
  · rw [ho, ho']
  · obtain ⟨c, rfl⟩ := hsame.exists_cited
    rw [ho, ho']
    rfl

variable (hplaced : WellPlaced a.network.opinions.toList) {source target : Nat}
  (hne : source ≠ target)
include hplaced hne

/-- An opinion asks for the same opacity where it cites another one of the set. -/
theorem opacityOf?_with_network :
    opacityOf? { a with network := g } source target = a.opacityOf? source target := by
  unfold opacityOf?
  dsimp only
  rcases h.getElem?_opinions source with ⟨ho, ho'⟩ | ⟨o, o', ho, ho', hsame⟩
  · rw [ho, ho']
    rfl
  rcases h.getElem?_opinions target with ⟨hp, hp'⟩ | ⟨p, p', hp, hp', hsame'⟩
  · rw [ho, ho', hp, hp']
    rfl
  -- Two different opinions have different identifiers, so this citation is resolved.
  rw [← Array.getElem?_toList] at ho hp
  have hp_mem := List.mem_of_getElem? hp
  have hid : p.id ≠ o.id := hplaced.id_ne ho hp hne
  have hp'id : p'.id = p.id := hsame'.record.id_eq
  rw [Array.getElem?_toList] at ho hp
  rw [ho, ho', hp, hp']
  show o'.record.cited.opacity? p'.id = o.record.cited.opacity? p.id
  rw [hp'id]
  exact hsame.record.opacity?_eq (List.mem_map_of_mem hp_mem) hid

theorem segment?_with_network (t : TrimmedMap) (settings : Settings)
    (points : List (Nat × ChartPoint)) (degree : Degree) :
    segment? { a with network := g } t settings points source target degree =
      a.segment? t settings points source target degree := by
  simp only [segment?, opacityBetween, colourTo_with_network h,
    opacityOf?_with_network h hplaced hne, opacityOf?_with_network h hplaced hne.symm]

end Charts

/-- A chart of a cut does not depend on citations that lead nowhere. -/
theorem chart_with_network {a : Atlas} {g : Network} (h : a.network.SameResolved g)
    (hg : a.network.Drawn) (hgenealogy : a.genealogy = a.network.genealogy) {limit : Nat}
    {t : TrimmedMap} (ht : a.trim limit = .ok t) (settings : Settings) :
    chart { a with network := g } t settings = a.chart t settings := by
  have hsegments : t.links.flatMap
        (segmentsOf { a with network := g } t settings (a.pointTable t)) =
      t.links.flatMap (a.segmentsOf t settings (a.pointTable t)) := by
    refine List.flatMap_congr fun l hl => ?_
    have hne := hg.ne_of_joinsAt (joinsAt_of_mem_keptLinks hg hgenealogy (links_of_trim ht ▸ hl))
    simp only [segmentsOf, segment?_with_network h hg.wellPlaced hne,
      segment?_with_network h hg.wellPlaced hne.symm, isMutual, h.links]
    rfl
  show Chart.mk _ _ _ _ _ _ = Chart.mk _ _ _ _ _ _
  rw [pointTable_with_network h, hsegments]
  rfl

/-- **Citations that lead nowhere have no influence.** Two lists of records that differ in no more
than citations of a record by itself and of opinions that are not in the list are refused for the
same fault, or give atlases that show the same. -/
theorem build_undisturbed {records records' : List OpinionRecord}
    (h : List.Forall₂ (OpinionRecord.SameResolved (records.map OpinionRecord.id)) records records')
    (settings : Settings) :
    SameOutcome Undisturbed (build records settings) (build records' settings) := by
  refine (Network.ofRecords_sameResolved h).map fun g g' hboth => ?_
  obtain ⟨hg, hsame⟩ := hboth
  rw [hsame.ofNetwork_eq settings]
  exact
    { opinions := hsame.map_withoutCitations
      network := by
        obtain ⟨opinions, cites, citedBy, links, tally⟩ := g'
        obtain ⟨-, rfl, rfl, rfl, hfolded⟩ := hsame
        obtain ⟨dangling, ofSelf, folded⟩ := tally
        obtain rfl := hfolded
        rfl
      rest := rfl
      trim := fun mode limit => trim_with_network (a := (ofNetwork g settings).setMode mode) hsame
        limit
      chart := fun mode limit t ht => chart_with_network
        (a := (ofNetwork g settings).setMode mode) hsame hg rfl ht }

/-- Five records again, with other citations that lead nowhere: the first opinion now cites itself
and two that are not in the set, and the last one none of them. -/
def strayRecords : List OpinionRecord :=
  [{ OpinionRecord.new (.number 1) "1900-01-01" with
      cited := .ofIds [.number 1, .number 8, .text "a"] },
    { OpinionRecord.new (.number 2) "1901-01-01" with cited := .ofIds [.number 1, .number 3] },
    { OpinionRecord.new (.number 3) "1902-01-01" with cited := .ofIds [.number 2, .number 4] },
    { OpinionRecord.new (.number 4) "1903-01-01" with cited := .ofIds [.number 2, .number 3] },
    { OpinionRecord.new (.number 5) "1904-01-01" with cited := .ofIds [.number 4] }]

theorem forall₂_strayRecords : List.Forall₂
    (OpinionRecord.SameResolved (fiveRecords.map OpinionRecord.id)) fiveRecords strayRecords :=
  .cons ⟨rfl, by decide⟩ <| .cons ⟨rfl, by decide⟩ <| .cons ⟨rfl, by decide⟩ <|
    .cons ⟨rfl, by decide⟩ <| .cons ⟨rfl, by decide⟩ .nil

theorem build_strayRecords :
    List.Forall₂ (OpinionRecord.SameResolved (fiveRecords.map OpinionRecord.id)) fiveRecords
      strayRecords ∧
    ∃ a a', build fiveRecords .default = .ok a ∧ build strayRecords .default = .ok a' ∧
      a.network.tally = ⟨1, 1, 2⟩ ∧ a'.network.tally = ⟨2, 1, 2⟩ ∧ a.Undisturbed a' := by
  have htally : ∀ settings, (build fiveRecords settings).toOption.map (fun a => a.network.tally) =
      some ⟨1, 1, 2⟩ := by
    intro settings
    cbv
  have htally' : ∀ settings, (build strayRecords settings).toOption.map
      (fun a => a.network.tally) = some ⟨2, 1, 2⟩ := by
    intro settings
    cbv
  obtain ⟨a, hok, ha⟩ := exists_ok_of_map_toOption (htally .default)
  obtain ⟨a', hok', ha'⟩ := exists_ok_of_map_toOption (htally' .default)
  have houtcome := build_undisturbed forall₂_strayRecords .default
  rw [hok, hok'] at houtcome
  cases houtcome with
  | accepted hsame => exact ⟨forall₂_strayRecords, a, a', hok, hok', ha, ha', hsame⟩

end Atlas

end Precedent
