import Precedent.Proofs.Genealogy.Parents
import Precedent.Proofs.Network.Degrees
import Precedent.Trim

/-!
# Precedent.Proofs.Trim.Kept

**What a cut keeps.** An opinion is kept if its degree falls under the limit. A citation link is
kept if both of its ends are, and, where the mode asks for it, if its own degree falls under the
limit too. In every mode a link that is kept stands for the link of its two ends.
-/

namespace Precedent

/-- What is left when repetitions are erased was there before. -/
theorem eraseDupsBy_sublist {α : Type} {r : α → α → Bool} (as : List α) :
    (as.eraseDupsBy r).Sublist as := by
  match as with
  | [] => simp
  | b :: rest =>
      rw [List.eraseDupsBy_cons]
      exact ((eraseDupsBy_sublist _).trans List.filter_sublist).cons_cons b
termination_by as.length
decreasing_by exact Nat.lt_succ_of_le (List.length_filter_le _ _)

/-- Erasing what has a value that came before leaves each value once. -/
theorem map_eraseDupsBy {α β : Type} [BEq β] (f : α → β) (as : List α) :
    (as.eraseDupsBy fun a b => f a == f b).map f = (as.map f).eraseDups := by
  match as with
  | [] => rfl
  | a :: rest =>
      rw [List.eraseDupsBy_cons, List.map_cons, map_eraseDupsBy f, List.map_cons,
        List.eraseDups_cons, List.filter_map]
      simp [Function.comp_def]
termination_by as.length
decreasing_by exact Nat.lt_succ_of_le (List.length_filter_le _ _)

/-- Where every entry gives a value, no entry is lost. -/
theorem forall₂_filterMap {α β : Type} {f : α → Option β} {r : α → β → Prop} {as : List α}
    (h : ∀ a ∈ as, ∃ b, f a = some b ∧ r a b) : List.Forall₂ r as (as.filterMap f) := by
  induction as with
  | nil => exact .nil
  | cons a as ih =>
      obtain ⟨⟨b, hb, hr⟩, has⟩ := List.forall_mem_cons.mp h
      rw [List.filterMap_cons_some hb]
      exact .cons hr (ih has)

namespace Atlas

variable {a : Atlas} {limit i slot : Nat}

/-- An atlas that has been built is that of a network of the records. -/
theorem build_eq_ok {records : List OpinionRecord} {settings : Settings}
    (h : build records settings = .ok a) :
    ∃ g, Network.ofRecords records = .ok g ∧ a = ofNetwork g settings := by
  unfold build at h
  cases hg : Network.ofRecords records with
  | error fault =>
      rw [hg] at h
      cases h
  | ok g =>
      rw [hg] at h
      exact ⟨g, rfl, (Except.ok.inj h).symm⟩

theorem ofRecords_network_of_build {records : List OpinionRecord} {settings : Settings}
    (h : build records settings = .ok a) : Network.ofRecords records = .ok a.network := by
  obtain ⟨g, hrecords, rfl⟩ := build_eq_ok h
  exact hrecords

theorem map_index_keptOpinions :
    (a.keptOpinions limit).map KeptOpinion.index =
      (List.range a.network.size).filter (a.keeps limit) := by
  rw [keptOpinions, List.map_map]
  exact List.zipIdx_map_fst ..

/-- The opinions that are kept are those under the limit. -/
theorem mem_index_keptOpinions : i ∈ (a.keptOpinions limit).map KeptOpinion.index ↔
    i < a.network.size ∧ (a.degrees.node i).isBelow limit = true := by
  rw [map_index_keptOpinions, List.mem_filter, List.mem_range, keeps]

theorem index_lt_of_mem_keptOpinions {k : KeptOpinion} (h : k ∈ a.keptOpinions limit) :
    k.index < a.network.size := (mem_index_keptOpinions.mp (List.mem_map_of_mem h)).1

/-- An opinion that is kept has the degree that it has in the map. -/
theorem degree_of_mem_keptOpinions {k : KeptOpinion} (h : k ∈ a.keptOpinions limit) :
    k.degree = a.degrees.node k.index := by
  obtain ⟨e, -, rfl⟩ := List.mem_map.mp h
  rfl

theorem mem_citationLinks {k : KeptLink} : k ∈ a.citationLinks ↔
    ∃ l, a.network.links[k.slot]? = some l ∧
      k = ⟨k.slot, l.citing, l.cited, a.degrees.link k.slot⟩ := by
  rw [citationLinks, List.mem_map]
  constructor
  · intro h
    obtain ⟨⟨l, slot⟩, hmem, rfl⟩ := h
    rw [List.mk_mem_zipIdx_iff_getElem?, Array.getElem?_toList] at hmem
    exact ⟨l, hmem, rfl⟩
  · intro h
    obtain ⟨l, hl, heq⟩ := h
    refine ⟨(l, k.slot), ?_, heq.symm⟩
    rwa [List.mk_mem_zipIdx_iff_getElem?, Array.getElem?_toList]

theorem degree_of_mem_citationLinks {k : KeptLink} (h : k ∈ a.citationLinks) :
    k.degree = a.degrees.link k.slot := by
  obtain ⟨l, -, heq⟩ := mem_citationLinks.mp h
  exact congrArg KeptLink.degree heq

/-- The slots of all citation links, in their order. -/
theorem map_slot_citationLinks :
    a.citationLinks.map KeptLink.slot = List.range a.network.linkCount := by
  rw [citationLinks, List.map_map, List.range_eq_range']
  exact List.zipIdx_map_snd ..

/-- In Spaeth mode a link is kept if both of its ends are. -/
theorem keptLinks_spaeth (hmode : a.mode = .spaeth) :
    a.keptLinks limit = a.citationLinks.filter (a.keepsEnds limit) := by
  rw [keptLinks, hmode]
  exact List.filter_eq_self.mpr fun _ _ => rfl

/-- In degrees mode a link has to fall under the limit as well. -/
theorem keptLinks_degrees (hmode : a.mode = .degrees) : a.keptLinks limit =
    (a.citationLinks.filter (a.keepsEnds limit)).filter fun k => k.degree.isBelow limit := by
  rw [keptLinks, hmode]
  rfl

/-- In degrees mode the links that are kept are those under the limit, with both ends under it. -/
theorem mem_slot_keptLinks (hmode : a.mode = .degrees) :
    slot ∈ (a.keptLinks limit).map KeptLink.slot ↔
      ∃ l, a.network.links[slot]? = some l ∧ (a.degrees.node l.citing).isBelow limit = true ∧
        (a.degrees.node l.cited).isBelow limit = true ∧
        (a.degrees.link slot).isBelow limit = true := by
  rw [keptLinks_degrees hmode]
  simp only [List.mem_map, List.mem_filter, mem_citationLinks, keepsEnds, keeps, Bool.and_eq_true]
  constructor
  · intro h
    obtain ⟨k, ⟨⟨⟨l, hl, heq⟩, hends⟩, hbelow⟩, rfl⟩ := h
    rw [heq] at hends hbelow
    exact ⟨l, hl, hends.1, hends.2, hbelow⟩
  · intro h
    obtain ⟨l, hl, hciting, hcited, hbelow⟩ := h
    exact ⟨⟨slot, l.citing, l.cited, a.degrees.link slot⟩,
      ⟨⟨⟨l, hl, rfl⟩, hciting, hcited⟩, hbelow⟩, rfl⟩

theorem joinsAt_of_mem_citationLinks {k : KeptLink} (h : k ∈ a.citationLinks) :
    a.network.JoinsAt k.slot k.source k.target := by
  obtain ⟨l, hl, heq⟩ := mem_citationLinks.mp h
  rw [heq]
  exact ⟨l, hl, Or.inl rfl⟩

/-- The parent link of an opinion leads to its parent and has the slot and the degree of the link
between the two. -/
theorem mem_parentLinks (hgenealogy : a.genealogy = a.network.genealogy) {k : KeptLink} :
    k ∈ a.parentLinks ↔ ∃ p, a.genealogy.parentOf? k.source = some p ∧
      k = ⟨p.slot, k.source, p.parent, a.degrees.link p.slot⟩ := by
  rw [parentLinks, hgenealogy, List.mem_map]
  constructor
  · intro h
    obtain ⟨p, hp, rfl⟩ := h
    obtain ⟨child, hchild, hparent⟩ := Network.mem_links_genealogy.mp hp
    obtain ⟨rfl, -⟩ := Network.parentOf?_cases hparent
    exact ⟨p, Network.parentOf?_genealogy_eq_some_iff.mpr ⟨hchild, hparent⟩, rfl⟩
  · intro h
    obtain ⟨p, hp, heq⟩ := h
    obtain ⟨hchild, hparent⟩ := Network.parentOf?_genealogy_eq_some_iff.mp hp
    refine ⟨p, Network.mem_links_genealogy.mpr ⟨k.source, hchild, hparent⟩, ?_⟩
    rw [heq, (Network.parentOf?_cases hparent).1]

theorem joinsAt_of_mem_parentLinks (hg : a.network.Drawn)
    (hgenealogy : a.genealogy = a.network.genealogy) {k : KeptLink} (h : k ∈ a.parentLinks) :
    a.network.JoinsAt k.slot k.source k.target := by
  obtain ⟨p, hp, heq⟩ := (mem_parentLinks hgenealogy).mp h
  rw [hgenealogy, Network.parentOf?_genealogy_eq_some_iff] at hp
  rw [heq]
  exact (hg.joinsAt_of_parentOf? hp.2).2

/-- In every mode a link that is kept is a citation link or a parent link, and its ends are kept. -/
theorem of_mem_keptLinks {k : KeptLink} (h : k ∈ a.keptLinks limit) :
    (k ∈ a.citationLinks ∨ k ∈ a.parentLinks) ∧ a.keepsEnds limit k = true := by
  cases hmode : a.mode with
  | genealogy =>
      rw [keptLinks, hmode] at h
      obtain ⟨hk, hends⟩ := List.mem_filter.mp ((eraseDupsBy_sublist _).subset h)
      exact ⟨Or.inr hk, hends⟩
  | degrees =>
      rw [keptLinks_degrees hmode] at h
      obtain ⟨hk, hends⟩ := List.mem_filter.mp (List.mem_of_mem_filter h)
      exact ⟨Or.inl hk, hends⟩
  | spaeth =>
      rw [keptLinks_spaeth hmode] at h
      obtain ⟨hk, hends⟩ := List.mem_filter.mp h
      exact ⟨Or.inl hk, hends⟩

/-- A link that is kept stands for the link of its two ends. -/
theorem joinsAt_of_mem_keptLinks (hg : a.network.Drawn)
    (hgenealogy : a.genealogy = a.network.genealogy) {k : KeptLink} (h : k ∈ a.keptLinks limit) :
    a.network.JoinsAt k.slot k.source k.target := by
  rcases (of_mem_keptLinks h).1 with hk | hk
  · exact joinsAt_of_mem_citationLinks hk
  · exact joinsAt_of_mem_parentLinks hg hgenealogy hk

/-- A link that is kept has the degree that it has in the map. -/
theorem degree_of_mem_keptLinks (hgenealogy : a.genealogy = a.network.genealogy) {k : KeptLink}
    (h : k ∈ a.keptLinks limit) : k.degree = a.degrees.link k.slot := by
  rcases (of_mem_keptLinks h).1 with hk | hk
  · exact degree_of_mem_citationLinks hk
  · obtain ⟨p, -, heq⟩ := (mem_parentLinks hgenealogy).mp hk
    rw [heq]

/-- The ends of a link are kept if they are among the opinions that are kept. -/
theorem keepsEnds_iff_of_joinsAt (hg : a.network.Drawn) {k : KeptLink}
    (hjoins : a.network.JoinsAt k.slot k.source k.target) : a.keepsEnds limit k = true ↔
    k.source ∈ (a.keptOpinions limit).map KeptOpinion.index ∧
      k.target ∈ (a.keptOpinions limit).map KeptOpinion.index := by
  rw [mem_index_keptOpinions, mem_index_keptOpinions, and_iff_right (hg.lt_of_joinsAt hjoins),
    and_iff_right (hg.lt_of_joinsAt hjoins.symm), ← Bool.and_eq_true]
  rfl

/-- The ends of a link that is kept are among the opinions that are kept. -/
theorem ends_mem_of_mem_keptLinks (hg : a.network.Drawn)
    (hgenealogy : a.genealogy = a.network.genealogy) {k : KeptLink} (hk : k ∈ a.keptLinks limit) :
    k.source ∈ (a.keptOpinions limit).map KeptOpinion.index ∧
      k.target ∈ (a.keptOpinions limit).map KeptOpinion.index :=
  (keepsEnds_iff_of_joinsAt hg (joinsAt_of_mem_keptLinks hg hgenealogy hk)).mp
    (of_mem_keptLinks hk).2

theorem trim_of_ne_zero (h : limit ≠ 0) :
    a.trim limit = .ok ⟨limit, a.mode, a.keptOpinions limit, a.keptLinks limit⟩ := if_neg h

theorem length_keptOpinions_le : (a.keptOpinions limit).length ≤ a.network.size := by
  rw [← List.length_map KeptOpinion.index, map_index_keptOpinions]
  exact (List.length_filter_le ..).trans (List.length_range ..).le

/-- The opinions that are kept are numbered from 1. -/
theorem map_position_keptOpinions : (a.keptOpinions limit).map KeptOpinion.position =
    List.range' 1 (a.keptOpinions limit).length :=
  List.ext_getElem (by simp) fun i _ _ => by simp [keptOpinions, Nat.add_comm]

theorem position_of_getElem? {k : KeptOpinion} (h : (a.keptOpinions limit)[i]? = some k) :
    k.position = i + 1 := by
  have hlt := (List.getElem?_eq_some_iff.mp h).1
  have hposition : ((a.keptOpinions limit).map KeptOpinion.position)[i]? = _ :=
    congrArg (·[i]?) map_position_keptOpinions
  rw [List.getElem?_map, h, List.getElem?_range' hlt] at hposition
  exact (Option.some.inj hposition).trans (by omega)

/-- In every mode the links that are kept are among all links or among the parent links. -/
theorem length_keptLinks_le : (a.keptLinks limit).length ≤
    max a.network.linkCount a.genealogy.links.length := by
  have hcitations : a.citationLinks.length = a.network.linkCount := by
    rw [citationLinks, List.length_map, List.length_zipIdx, Array.length_toList, Network.linkCount]
  have hparents : a.parentLinks.length = a.genealogy.links.length := List.length_map ..
  rw [← hcitations, ← hparents, keptLinks]
  cases a.mode with
  | genealogy =>
      exact le_max_of_le_right
        ((eraseDupsBy_sublist _).trans List.filter_sublist).length_le
  | degrees => exact le_max_of_le_left (List.filter_sublist.trans List.filter_sublist).length_le
  | spaeth => exact le_max_of_le_left (List.filter_sublist.trans List.filter_sublist).length_le

section

variable {t : TrimmedMap} (h : a.trim limit = .ok t)
include h

theorem trim_eq_ok : t = ⟨limit, a.mode, a.keptOpinions limit, a.keptLinks limit⟩ := by
  unfold trim at h
  split at h
  · cases h
  · exact (Except.ok.inj h).symm

theorem mode_of_trim : t.mode = a.mode := congrArg TrimmedMap.mode (trim_eq_ok h)

theorem opinions_of_trim : t.opinions = a.keptOpinions limit :=
  congrArg TrimmedMap.opinions (trim_eq_ok h)

theorem links_of_trim : t.links = a.keptLinks limit := congrArg TrimmedMap.links (trim_eq_ok h)

/-- A cut keeps opinions of the network only. -/
theorem index_lt_of_trim : ∀ k ∈ t.opinions, k.index < a.network.size := by
  rw [opinions_of_trim h]
  exact fun _ => index_lt_of_mem_keptOpinions

end

end Atlas

end Precedent
