import Precedent.Proofs.Network.Extension
import Precedent.Proofs.Trim.ParentLinks

/-!
# Precedent.Proofs.Trim.Extension

**More citations never hide anything.** Of two maps of the same opinions one may have more
citations. It shows all that the other shows and shows nothing farther away, so a cut of it keeps
the opinions that the same cut of the other keeps. In degrees mode it keeps the linked pairs as
well; in genealogy mode it need not, since an opinion may choose another parent.
-/

namespace Precedent

/-- A cut lists a link of two opinions, whichever way it leads. -/
def TrimmedMap.Links (t : TrimmedMap) (i j : Nat) : Prop :=
  ∃ k ∈ t.links, (k.source = i ∧ k.target = j) ∨ (k.source = j ∧ k.target = i)

namespace Atlas

variable {a a' : Atlas} {limit i j : Nat}

/-- In degrees mode two opinions stay linked if they and their link fall under the limit. -/
theorem links_iff_of_degrees (hmode : a.mode = .degrees) :
    TrimmedMap.Links ⟨limit, a.mode, a.keptOpinions limit, a.keptLinks limit⟩ i j ↔
      ∃ slot, a.network.JoinsAt slot i j ∧ (a.degrees.node i).isBelow limit = true ∧
        (a.degrees.node j).isBelow limit = true ∧
        (a.degrees.link slot).isBelow limit = true := by
  simp only [TrimmedMap.Links, keptLinks_degrees hmode, List.mem_filter, keepsEnds, keeps,
    Bool.and_eq_true]
  constructor
  · intro h
    obtain ⟨k, ⟨⟨hk, hsource, htarget⟩, hbelow⟩, hends⟩ := h
    have hjoins := joinsAt_of_mem_citationLinks hk
    rw [degree_of_mem_citationLinks hk] at hbelow
    rcases hends with ⟨rfl, rfl⟩ | ⟨rfl, rfl⟩
    · exact ⟨k.slot, hjoins, hsource, htarget, hbelow⟩
    · exact ⟨k.slot, hjoins.symm, htarget, hsource, hbelow⟩
  · intro h
    obtain ⟨slot, ⟨l, hl, hjoins⟩, hi, hj, hbelow⟩ := h
    refine ⟨⟨slot, l.citing, l.cited, a.degrees.link slot⟩,
      ⟨⟨mem_citationLinks.mpr ⟨l, hl, rfl⟩, ?_⟩, hbelow⟩, ?_⟩
    · rcases hjoins with ⟨rfl, rfl⟩ | ⟨rfl, rfl⟩
      · exact ⟨hi, hj⟩
      · exact ⟨hj, hi⟩
    · exact hjoins.imp Prod.mk.inj Prod.mk.inj

/-- All that a map shows is shown in another one, and nothing is farther away there. -/
structure ShownIn (a a' : Atlas) : Prop where
  forward : ∀ i, AtMost (a'.distances.forward.at? i) (a.distances.forward.at? i)
  backward : ∀ i, AtMost (a'.distances.backward.at? i) (a.distances.backward.at? i)
  degree : ∀ i < a.network.size, a'.degrees.node i ≤ a.degrees.node i
  /-- The slots of links may differ. -/
  link : ∀ i j slot, a.network.linkBetween? i j = some slot →
    ∃ slot', a'.network.linkBetween? i j = some slot' ∧
      a'.degrees.link slot' ≤ a.degrees.link slot
  /-- What is kept under a limit is kept there as well; a limit of 0 is refused by both. -/
  kept : ∀ mode limit, 1 ≤ limit → ∃ t t', (a.setMode mode).trim limit = .ok t ∧
    (a'.setMode mode).trim limit = .ok t' ∧ t.keptIndices ⊆ t'.keptIndices ∧
    (mode = .degrees → ∀ i j, t.Links i j → t'.Links i j)

theorem shownIn (ha : a.Derived) (ha' : a'.Derived) (h : a.network.ExtendedBy a'.network) :
    a.ShownIn a' := by
  have hdegree : ∀ i < a.network.size, a'.degrees.node i ≤ a.degrees.node i := by
    rw [ha.degrees, ha'.degrees]
    exact fun _ => h.degree_node_le
  have hjoins : ∀ {slot i j}, a.network.JoinsAt slot i j →
      ∃ slot', a'.network.JoinsAt slot' i j ∧ a'.degrees.link slot' ≤ a.degrees.link slot := by
    intro slot i j hjoins
    obtain ⟨slot', hjoins'⟩ := h.exists_joinsAt hjoins
    rw [ha.degrees, ha'.degrees]
    exact ⟨slot', hjoins', h.degree_link_le hjoins hjoins'⟩
  refine
    { forward := ?_
      backward := ?_
      degree := hdegree
      link := ?_
      kept := ?_ }
  · rw [ha.distances, ha'.distances]
    exact h.forward_atMost
  · rw [ha.distances, ha'.distances]
    exact h.backward_atMost
  · intro i j slot hslot
    obtain ⟨slot', hjoins', hle⟩ := hjoins (h.drawn.linkBetween?_eq_some_iff.mp hslot)
    exact ⟨slot', h.drawn'.linkBetween?_eq_some_iff.mpr hjoins', hle⟩
  · intro mode limit hpos
    have hne := Nat.ne_of_gt hpos
    refine ⟨_, _, trim_of_ne_zero hne, trim_of_ne_zero hne, ?_, ?_⟩
    · intro i hi
      obtain ⟨hi, hbelow⟩ := mem_index_keptOpinions.mp hi
      exact mem_index_keptOpinions.mpr
        ⟨h.size_eq ▸ hi, Degree.isBelow_of_le (hdegree i hi) hbelow⟩
    · intro hmode i j hlinks
      obtain ⟨slot, hslot, hi, hj, hbelow⟩ :=
        (links_iff_of_degrees (a := a.setMode mode) hmode).mp hlinks
      obtain ⟨slot', hslot', hle⟩ := hjoins hslot
      exact (links_iff_of_degrees (a := a'.setMode mode) hmode).mpr
        ⟨slot', hslot', Degree.isBelow_of_le (hdegree i (h.drawn.lt_of_joinsAt hslot)) hi,
          Degree.isBelow_of_le (hdegree j (h.drawn.lt_of_joinsAt hslot.symm)) hj,
          Degree.isBelow_of_le hle hbelow⟩

/-- **More citations never hide anything.** If two lists of records are accepted with the same
opinions in the same order, and all citations of the first that are within its set are made in the
second too, then the map of the second shows all that the map of the first does. -/
theorem build_shownIn {records records' : List OpinionRecord} {settings settings' : Settings}
    (h : build records settings = .ok a) (h' : build records' settings' = .ok a')
    (hids : a'.network.opinions.map Opinion.id = a.network.opinions.map Opinion.id)
    (hcites : CitationsWithin records records') (requests requests' : List AtlasRequest) :
    (a.performAll requests).ShownIn (a'.performAll requests') := by
  refine shownIn (derived_performAll h requests) (derived_performAll h' requests') ?_
  rw [network_performAll, network_performAll]
  exact Network.extendedBy_of_records (ofRecords_network_of_build h)
    (ofRecords_network_of_build h') hids hcites

/-- The records of `fiveRecords` with two more citations: the second cites the fourth, which cites
it already, and the fifth cites the third. -/
def fiveRecordsCitingMore : List OpinionRecord :=
  [{ OpinionRecord.new (.number 1) "1900-01-01" with cited := .ofIds [] },
    { OpinionRecord.new (.number 2) "1901-01-01" with
      cited := .ofIds [.number 1, .number 3, .number 4] },
    { OpinionRecord.new (.number 3) "1902-01-01" with cited := .ofIds [.number 2, .number 4] },
    { OpinionRecord.new (.number 4) "1903-01-01" with cited := .ofIds [.number 2, .number 3] },
    { OpinionRecord.new (.number 5) "1904-01-01" with
      cited := .ofIds [.number 3, .number 4, .number 5, .number 9] }]

/-- The link of the second and the fourth opinion leads the other way and has another slot. The
third opinion is nearer and is kept under a limit of 3, where it was left out. -/
theorem build_shownIn_fiveRecords : ∃ a a', build fiveRecords .default = .ok a ∧
    build fiveRecordsCitingMore .default = .ok a' ∧
    (a.network.linkBetween? 1 3 = some 3 ∧ a'.network.linkBetween? 1 3 = some 2) ∧
    (a.degrees.node 2 = .fourth ∧ a'.degrees.node 2 = .third) ∧
    (a.performAll []).ShownIn (a'.performAll []) := by
  have hbuild : ∀ settings, (build fiveRecords settings).toOption.map (fun a =>
      (a.network.opinions.map Opinion.id, a.network.linkBetween? 1 3, a.degrees.node 2)) =
      some (#[.number 1, .number 2, .number 3, .number 4, .number 5], some 3, .fourth) := by
    intro settings
    cbv
  have hbuild' : ∀ settings, (build fiveRecordsCitingMore settings).toOption.map (fun a =>
      (a.network.opinions.map Opinion.id, a.network.linkBetween? 1 3, a.degrees.node 2)) =
      some (#[.number 1, .number 2, .number 3, .number 4, .number 5], some 2, .third) := by
    intro settings
    cbv
  obtain ⟨a, hok, hall⟩ := exists_ok_of_map_toOption (hbuild .default)
  obtain ⟨a', hok', hall'⟩ := exists_ok_of_map_toOption (hbuild' .default)
  obtain ⟨hids, hrest⟩ := Prod.mk.inj hall
  obtain ⟨hids', hrest'⟩ := Prod.mk.inj hall'
  obtain ⟨hlink, hdegree⟩ := Prod.mk.inj hrest
  obtain ⟨hlink', hdegree'⟩ := Prod.mk.inj hrest'
  exact ⟨a, a', hok, hok', ⟨hlink, hlink'⟩, ⟨hdegree, hdegree'⟩,
    build_shownIn hok hok' (hids'.trans hids.symm) (by decide) [] []⟩

end Atlas

end Precedent
