import Precedent.Proofs.Genealogy.Counts
import Precedent.Proofs.Lookup.Authorities
import Precedent.Proofs.Trim.Kept

/-!
# Precedent.Proofs.Trim.ParentLinks

**Which parent links a cut lists.** Two opinions can be each other's parents, and then both parent
links have the slot of the one link between them. No third opinion can choose that slot, since a
link has two ends. So a slot is chosen once or twice, and where it is chosen twice, the parent link
of the later child is left out. A cut keeps both of the two parent links or neither, since they have
the same ends; hence which of them is left out does not depend on the limit, and what is left out
can be counted by the pairs that chose each other.
-/

namespace Precedent

/-- Where places increase, erasing what has a key that came before leaves of each key what has the
smallest place. -/
theorem eraseDupsBy_eq_filter {α : Type} {key place : α → Nat} (as : List α)
    (h : as.Pairwise fun a b => place a < place b) :
    (as.eraseDupsBy fun a b => key a == key b) =
      as.filter fun a => ∀ b ∈ as, key b = key a → place a ≤ place b := by
  match as with
  | [] => rfl
  | a :: rest =>
      obtain ⟨hfirst, hrest⟩ := List.pairwise_cons.mp h
      have ha : ∀ b ∈ a :: rest, key b = key a → place a ≤ place b := by
        rw [List.forall_mem_cons]
        exact ⟨fun _ => Nat.le_refl _, fun b hb _ => (hfirst b hb).le⟩
      rw [List.eraseDupsBy_cons, eraseDupsBy_eq_filter _ (hrest.filter _), List.filter_filter,
        List.filter_cons_of_pos (by simpa using ha)]
      congr 1
      refine List.filter_congr fun b hb => ?_
      -- Behind the first entry, what has its key is not the first of that key, and what has another
      -- key need not be compared with it.
      have hlt := hfirst b hb
      rw [Bool.eq_iff_iff]
      simp only [Bool.and_eq_true, decide_eq_true_eq, List.forall_mem_cons, List.mem_filter,
        beq_eq_false_iff_ne, and_imp]
      constructor
      · intro h
        obtain ⟨hsmallest, hne⟩ := h
        exact ⟨fun heq => absurd heq.symm hne,
          fun c hc hkey => hsmallest c hc (hkey ▸ hne) hkey⟩
      · intro h
        obtain ⟨hle, hsmallest⟩ := h
        exact ⟨fun c hc _ => hsmallest c hc, fun heq => (hle heq.symm).not_gt hlt⟩
termination_by as.length
decreasing_by exact Nat.lt_succ_of_le (List.length_filter_le _ _)

namespace Genealogy

variable {t : Genealogy} {child parent : Nat} {k : KeptLink}

/-- Whether one opinion is the parent of another. -/
def hasParent (t : Genealogy) (child parent : Nat) : Bool :=
  (t.parentOf? child).any fun p => p.parent == parent

theorem hasParent_iff : t.hasParent child parent = true ↔
    ∃ p, t.parentOf? child = some p ∧ p.parent = parent := by
  simp [hasParent, Option.any_eq_true]

/-- Whether a parent link leads to an earlier opinion of which the child is the parent. -/
def isReturn (t : Genealogy) (k : KeptLink) : Bool :=
  k.target < k.source && t.hasParent k.target k.source

theorem isReturn_iff :
    t.isReturn k = true ↔ k.target < k.source ∧ t.hasParent k.target k.source = true := by
  simp [isReturn]

/-- Of some opinions those whose parent is one of them. -/
def childrenWithin (t : Genealogy) (kept : List Nat) : List Nat :=
  kept.filter fun i => kept.any (t.hasParent i)

/-- The pairs of some opinions that are each other's parents, the earlier opinion first. -/
def mutualWithin (t : Genealogy) (kept : List Nat) : List (Nat × Nat) :=
  (kept.product kept).filter fun e =>
    e.1 < e.2 && (t.hasParent e.1 e.2 && t.hasParent e.2 e.1)

end Genealogy

namespace Atlas

variable {a : Atlas} {limit slot i j : Nat} {k k' : KeptLink}

theorem nodup_index_keptOpinions : ((a.keptOpinions limit).map KeptOpinion.index).Nodup := by
  rw [map_index_keptOpinions]
  exact List.nodup_range.filter _

/-! ### Links of one slot -/

section

variable (hgenealogy : a.genealogy = a.network.genealogy)
include hgenealogy

/-- The parent links stand in the order of the children. -/
theorem pairwise_parentLinks : a.parentLinks.Pairwise fun k k' => k.source < k'.source := by
  rw [parentLinks, hgenealogy, Network.links_genealogy]
  refine List.pairwise_map.mpr (List.pairwise_lt_range.filterMap _ ?_)
  intro i j hij p hp p' hp'
  rw [(Network.parentOf?_cases hp).1, (Network.parentOf?_cases hp').1]
  exact hij

theorem hasParent_of_mem_parentLinks (hk : k ∈ a.parentLinks) :
    a.genealogy.hasParent k.source k.target = true := by
  obtain ⟨p, hp, heq⟩ := (mem_parentLinks hgenealogy).mp hk
  exact Genealogy.hasParent_iff.mpr ⟨p, hp, by rw [heq]⟩

theorem mem_parentLinks_of_parentOf? {p : ParentLink} (hp : a.genealogy.parentOf? i = some p) :
    ⟨p.slot, i, p.parent, a.degrees.link p.slot⟩ ∈ a.parentLinks :=
  (mem_parentLinks hgenealogy).mpr ⟨p, hp, rfl⟩

theorem exists_mem_parentLinks (hparent : a.genealogy.hasParent i j = true) :
    ∃ k ∈ a.parentLinks, k.source = i ∧ k.target = j := by
  obtain ⟨p, hp, rfl⟩ := Genealogy.hasParent_iff.mp hparent
  exact ⟨_, mem_parentLinks_of_parentOf? hgenealogy hp, rfl, rfl⟩

end

section

variable (hg : a.network.Drawn) (hgenealogy : a.genealogy = a.network.genealogy)
include hg hgenealogy

/-- Parent links of one slot have the same child or lead back and forth between two opinions. -/
theorem source_eq_or_swap (hk : k ∈ a.parentLinks) (hk' : k' ∈ a.parentLinks)
    (hslot : k'.slot = k.slot) :
    k'.source = k.source ∨ (k'.source = k.target ∧ k'.target = k.source) := by
  have hjoins := joinsAt_of_mem_parentLinks hg hgenealogy hk
  have hjoins' := joinsAt_of_mem_parentLinks hg hgenealogy hk'
  rw [hslot] at hjoins'
  exact (hjoins.eq_or_swap hjoins').imp_left And.left

/-- Opinions that are each other's parents have chosen one slot. -/
theorem slot_eq_of_swap (hk : k ∈ a.parentLinks) (hk' : k' ∈ a.parentLinks)
    (hsource : k'.source = k.target) (htarget : k'.target = k.source) : k'.slot = k.slot := by
  have hjoins := joinsAt_of_mem_parentLinks hg hgenealogy hk
  have hjoins' := joinsAt_of_mem_parentLinks hg hgenealogy hk'
  rw [hsource, htarget] at hjoins'
  exact hg.slot_unique hjoins' hjoins.symm

/-- A parent link that is not a return has the earliest child of its slot. -/
theorem source_le_of_not_isReturn (hk : k ∈ a.parentLinks) (hk' : k' ∈ a.parentLinks)
    (hslot : k'.slot = k.slot) (hreturn : ¬ a.genealogy.isReturn k = true) :
    k.source ≤ k'.source := by
  rcases source_eq_or_swap hg hgenealogy hk hk' hslot with hsource | ⟨hsource, htarget⟩
  · exact hsource.ge
  · have hparent := hasParent_of_mem_parentLinks hgenealogy hk'
    rw [hsource, htarget] at hparent
    rw [hsource]
    exact Nat.le_of_not_lt fun hlt => hreturn (Genealogy.isReturn_iff.mpr ⟨hlt, hparent⟩)

/-- A cut lists the parent links of which it keeps both ends, but for the returns. -/
theorem keptLinks_genealogy (hmode : a.mode = .genealogy) : a.keptLinks limit =
    (a.parentLinks.filter (a.keepsEnds limit)).filter fun k => !a.genealogy.isReturn k := by
  rw [keptLinks, hmode]
  dsimp only
  rw [eraseDupsBy_eq_filter _ ((pairwise_parentLinks hgenealogy).filter _)]
  refine List.filter_congr fun k hk => ?_
  obtain ⟨hk, hends⟩ := List.mem_filter.mp hk
  rw [Bool.eq_iff_iff, decide_eq_true_iff, Bool.not_eq_true', ← Bool.not_eq_true]
  constructor
  · intro hfirst hreturn
    -- The link that leads the other way has the same ends, so it is among those that are kept.
    obtain ⟨hlt, hparent⟩ := Genealogy.isReturn_iff.mp hreturn
    obtain ⟨k', hk', hsource, htarget⟩ := exists_mem_parentLinks hgenealogy hparent
    have hends' : a.keepsEnds limit k' = true := by
      rw [keepsEnds, hsource, htarget, Bool.and_comm, ← keepsEnds, hends]
    have hle := hfirst k' (List.mem_filter.mpr ⟨hk', hends'⟩)
      (slot_eq_of_swap hg hgenealogy hk hk' hsource htarget)
    omega
  · intro hreturn k' hk' hslot
    exact source_le_of_not_isReturn hg hgenealogy hk (List.mem_of_mem_filter hk') hslot hreturn

/-! ### Kept ends -/

theorem keepsEnds_iff (hk : k ∈ a.parentLinks) : a.keepsEnds limit k = true ↔
    k.source ∈ (a.keptOpinions limit).map KeptOpinion.index ∧
      k.target ∈ (a.keptOpinions limit).map KeptOpinion.index :=
  keepsEnds_iff_of_joinsAt hg (joinsAt_of_mem_parentLinks hg hgenealogy hk)

/-- The slots that are listed are those of the parent links of which both ends are kept. -/
theorem mem_slot_keptLinks_genealogy (hmode : a.mode = .genealogy) :
    slot ∈ (a.keptLinks limit).map KeptLink.slot ↔
      ∃ i p, a.genealogy.parentOf? i = some p ∧ p.slot = slot ∧
        i ∈ (a.keptOpinions limit).map KeptOpinion.index ∧
        p.parent ∈ (a.keptOpinions limit).map KeptOpinion.index := by
  rw [keptLinks, hmode]
  dsimp only
  rw [map_eraseDupsBy, List.mem_eraseDups, List.mem_map]
  constructor
  · intro h
    obtain ⟨k, hk, rfl⟩ := h
    obtain ⟨hk, hends⟩ := List.mem_filter.mp hk
    obtain ⟨hsource, htarget⟩ := (keepsEnds_iff hg hgenealogy hk).mp hends
    obtain ⟨p, hp, heq⟩ := (mem_parentLinks hgenealogy).mp hk
    rw [heq] at htarget ⊢
    exact ⟨k.source, p, hp, rfl, hsource, htarget⟩
  · intro h
    obtain ⟨i, p, hp, rfl, hi, hparent⟩ := h
    have hk := mem_parentLinks_of_parentOf? hgenealogy hp
    exact ⟨_, List.mem_filter.mpr ⟨hk, (keepsEnds_iff hg hgenealogy hk).mpr ⟨hi, hparent⟩⟩, rfl⟩

/-- The children of the parent links of which both ends are kept. -/
theorem perm_childrenWithin :
    ((a.parentLinks.filter (a.keepsEnds limit)).map KeptLink.source).Perm
      (a.genealogy.childrenWithin ((a.keptOpinions limit).map KeptOpinion.index)) := by
  refine (List.perm_ext_iff_of_nodup ?_ ?_).mpr fun i => ?_
  · exact List.pairwise_map.mpr
      (((pairwise_parentLinks hgenealogy).filter _).imp fun hlt => Nat.ne_of_lt hlt)
  · exact nodup_index_keptOpinions.filter _
  · simp only [Genealogy.childrenWithin, List.mem_map, List.mem_filter, List.any_eq_true]
    constructor
    · intro h
      obtain ⟨k, ⟨hk, hends⟩, rfl⟩ := h
      obtain ⟨hsource, htarget⟩ := (keepsEnds_iff hg hgenealogy hk).mp hends
      exact ⟨List.mem_map.mp hsource, k.target, List.mem_map.mp htarget,
        hasParent_of_mem_parentLinks hgenealogy hk⟩
    · intro h
      obtain ⟨hi, j, hj, hparent⟩ := h
      obtain ⟨k, hk, rfl, rfl⟩ := exists_mem_parentLinks hgenealogy hparent
      exact ⟨k, ⟨hk, (keepsEnds_iff hg hgenealogy hk).mpr
        ⟨List.mem_map.mpr hi, List.mem_map.mpr hj⟩⟩, rfl⟩

/-- The returns of which both ends are kept lead back and forth between opinions that are kept and
are each other's parents. -/
theorem perm_mutualWithin :
    (((a.parentLinks.filter (a.keepsEnds limit)).filter a.genealogy.isReturn).map
      fun k => (k.target, k.source)).Perm
      (a.genealogy.mutualWithin ((a.keptOpinions limit).map KeptOpinion.index)) := by
  refine (List.perm_ext_iff_of_nodup ?_ ?_).mpr fun e => ?_
  · refine List.pairwise_map.mpr ((((pairwise_parentLinks hgenealogy).filter _).filter _).imp ?_)
    exact fun hlt heq => Nat.ne_of_lt hlt (Prod.mk.inj heq).2
  · exact (nodup_index_keptOpinions.product nodup_index_keptOpinions).filter _
  · obtain ⟨i, j⟩ := e
    rw [Genealogy.mutualWithin, List.mem_filter, List.pair_mem_product, List.mem_map]
    simp only [List.mem_filter, Genealogy.isReturn_iff, Bool.and_eq_true, decide_eq_true_eq,
      Prod.mk.injEq]
    constructor
    · intro h
      obtain ⟨k, ⟨⟨hk, hends⟩, hlt, hparent⟩, rfl, rfl⟩ := h
      exact ⟨((keepsEnds_iff hg hgenealogy hk).mp hends).symm, hlt, hparent,
        hasParent_of_mem_parentLinks hgenealogy hk⟩
    · intro h
      obtain ⟨hboth, hlt, hparent, hback⟩ := h
      obtain ⟨k, hk, rfl, rfl⟩ := exists_mem_parentLinks hgenealogy hback
      exact ⟨k, ⟨⟨hk, (keepsEnds_iff hg hgenealogy hk).mpr hboth.symm⟩, hlt, hparent⟩, rfl, rfl⟩

/-- Of the children that are kept with their parents all are listed but one of each two that are
each other's parents. -/
theorem length_keptLinks_add (hmode : a.mode = .genealogy) : (a.keptLinks limit).length +
    (a.genealogy.mutualWithin ((a.keptOpinions limit).map KeptOpinion.index)).length =
      (a.genealogy.childrenWithin ((a.keptOpinions limit).map KeptOpinion.index)).length := by
  rw [← (perm_mutualWithin hg hgenealogy).length_eq,
    ← (perm_childrenWithin hg hgenealogy).length_eq, List.length_map, List.length_map, keptLinks_genealogy hg hgenealogy hmode, Nat.add_comm]
  exact (List.length_eq_length_filter_add _).symm

end

end Atlas

/-! ### Cuts in genealogy mode -/

/-- The indices of the opinions that are kept. -/
def TrimmedMap.keptIndices (t : TrimmedMap) : List Nat := t.opinions.map KeptOpinion.index

/-- The links of a cut are the parent links between the opinions that are kept, each slot once. -/
structure TrimmedMap.ListsParents (t : TrimmedMap) (parents : Genealogy) : Prop where
  nodup : (t.links.map KeptLink.slot).Nodup
  /-- A slot is listed if it is that of a parent link of which both ends are kept. -/
  mem_slot_iff : ∀ slot, slot ∈ t.links.map KeptLink.slot ↔
    ∃ i p, parents.parentOf? i = some p ∧ p.slot = slot ∧
      i ∈ t.keptIndices ∧ p.parent ∈ t.keptIndices
  /-- A link leads from a child to its parent. -/
  parent : ∀ k ∈ t.links, ∃ p, parents.parentOf? k.source = some p ∧ p.parent = k.target ∧
    p.slot = k.slot
  /-- Of all opinions that chose the slot of a link, whether they are kept or not, the child is the
  earliest. -/
  earliest : ∀ k ∈ t.links, ∀ i p, parents.parentOf? i = some p → p.slot = k.slot → k.source ≤ i
  increasing : t.links.Pairwise fun k k' => k.source < k'.source
  /-- There is a link for each opinion that is kept with its parent, but only one for two that are
  each other's parents. -/
  length_add : t.links.length + (parents.mutualWithin t.keptIndices).length =
    (parents.childrenWithin t.keptIndices).length

namespace Atlas

variable {a : Atlas} {limit : Nat}

/-- What a cut lists in genealogy mode. -/
theorem listsParents (hg : a.network.Drawn) (hgenealogy : a.genealogy = a.network.genealogy)
    (hmode : a.mode = .genealogy) :
    TrimmedMap.ListsParents ⟨limit, a.mode, a.keptOpinions limit, a.keptLinks limit⟩
      a.genealogy := by
  have hlisted : ∀ k ∈ a.keptLinks limit,
      k ∈ a.parentLinks ∧ ¬ a.genealogy.isReturn k = true := by
    intro k hk
    rw [keptLinks_genealogy hg hgenealogy hmode, List.mem_filter, List.mem_filter] at hk
    exact ⟨hk.1.1, by simpa using hk.2⟩
  have hincreasing : (a.keptLinks limit).Pairwise fun k k' => k.source < k'.source := by
    rw [keptLinks_genealogy hg hgenealogy hmode]
    exact ((pairwise_parentLinks hgenealogy).filter _).filter _
  refine
    { nodup := ?_
      mem_slot_iff := ?_
      parent := ?_
      earliest := ?_
      increasing := hincreasing
      length_add := length_keptLinks_add hg hgenealogy hmode }
  · refine List.pairwise_map.mpr (hincreasing.imp_of_mem fun {k k'} hk hk' hlt hslot => ?_)
    obtain ⟨hk', hreturn⟩ := hlisted k' hk'
    have hle := source_le_of_not_isReturn hg hgenealogy hk' (hlisted k hk).1 hslot hreturn
    omega
  · exact fun _ => mem_slot_keptLinks_genealogy hg hgenealogy hmode
  · intro k hk
    obtain ⟨p, hp, heq⟩ := (mem_parentLinks hgenealogy).mp (hlisted k hk).1
    exact ⟨p, hp, by rw [heq], by rw [heq]⟩
  · intro k hk i p hp hslot
    obtain ⟨hk, hreturn⟩ := hlisted k hk
    exact source_le_of_not_isReturn hg hgenealogy hk
      (mem_parentLinks_of_parentOf? hgenealogy hp) hslot hreturn

/-- **A cut in genealogy mode lists the parent links between the opinions that are kept,** for every
list of records that is accepted, all requests that have gone before and every limit that is
allowed. -/
theorem build_listsParents {records : List OpinionRecord} {settings : Settings}
    (h : build records settings = .ok a) (requests : List AtlasRequest)
    (hmode : (a.performAll requests).mode = .genealogy) (hpos : 1 ≤ limit) :
    ∃ t, (a.performAll requests).trim limit = .ok t ∧ t.limit = limit ∧ t.mode = .genealogy ∧
      t.ListsParents a.genealogy := by
  obtain ⟨g, hrecords, rfl⟩ := build_eq_ok h
  obtain ⟨-, hg⟩ := Network.ofRecords_drawn hrecords
  obtain ⟨mode, summaries, hafter⟩ := exists_performAll_eq (ofNetwork g settings) requests
  rw [hafter] at hmode ⊢
  exact ⟨_, trim_of_ne_zero (Nat.ne_of_gt hpos), rfl, hmode, listsParents hg rfl hmode⟩

/-- Five opinions are kept, each with its parent; the third and the fourth are each other's parents,
and their link is listed for the third one. -/
theorem build_listsParents_fiveRecords : ∃ a t, build fiveRecords .default = .ok a ∧
    (a.performAll [.setMode .genealogy]).trim 4 = .ok t ∧
    (t.links.map (fun k => (k.slot, k.source, k.target)) =
        [(0, 0, 1), (1, 1, 2), (2, 2, 3), (4, 4, 3)] ∧
      a.genealogy.childrenWithin t.keptIndices = [0, 1, 2, 3, 4] ∧
      a.genealogy.mutualWithin t.keptIndices = [(2, 3)]) ∧
    t.ListsParents a.genealogy := by
  have hbuild : ∀ settings, (build fiveRecords settings).toOption.map (fun a =>
      ((a.performAll [.setMode .genealogy]).mode,
        ((a.performAll [.setMode .genealogy]).trim 4).toOption.map fun t =>
          (t.links.map (fun k => (k.slot, k.source, k.target)),
            a.genealogy.childrenWithin t.keptIndices, a.genealogy.mutualWithin t.keptIndices))) =
      some (.genealogy, some
        ([(0, 0, 1), (1, 1, 2), (2, 2, 3), (4, 4, 3)], [0, 1, 2, 3, 4], [(2, 3)])) := by
    intro settings
    cbv
  obtain ⟨a, hok, hboth⟩ := exists_ok_of_map_toOption (hbuild .default)
  obtain ⟨hmode, hlisted⟩ := Prod.mk.inj hboth
  obtain ⟨t, htrim, -, -, hlists⟩ :=
    build_listsParents hok [.setMode .genealogy] hmode (show 1 ≤ 4 by decide)
  rw [htrim] at hlisted
  obtain ⟨hlinks, hrest⟩ := Prod.mk.inj (Option.some.inj hlisted)
  exact ⟨a, t, hok, htrim, ⟨hlinks, Prod.mk.inj hrest⟩, hlists⟩

end Atlas

end Precedent
