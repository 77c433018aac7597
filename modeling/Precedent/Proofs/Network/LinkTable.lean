import Precedent.Proofs.Network.Drawn

/-!
# Precedent.Proofs.Network.LinkTable

**The link table collapses the citations faithfully.** Two opinions that are joined by a citation
have one link and no more, and the link says of them what their citations say: who cites, whether
both do, and under which key. The slots follow the order of the opening citations, and a lookup in
either direction finds the slot.

All of it is read off the openings: the link at a slot is that of the opening citation at that
place, and an opening citation stands nowhere else.
-/

namespace Precedent

/-! ### Keys -/

namespace LinkKey

variable {a b : OpinionId}

/-- The smaller of two different identifiers is the low one. -/
theorem compare_of (h : a ≠ b) : compare (of a b).low (of a b).high = .lt := by
  unfold of
  cases hcmp : compare a b with
  | lt => simpa using hcmp
  | eq => exact absurd (Std.LawfulEqOrd.eq_of_compare hcmp) h
  | gt =>
      have hswap : compare b a = (compare a b).swap := Std.OrientedCmp.eq_swap
      simpa [hcmp] using hswap

theorem of_eq (a b : OpinionId) : of a b = ⟨a, b⟩ ∨ of a b = ⟨b, a⟩ := by
  unfold of
  split
  · exact Or.inl rfl
  · exact Or.inr rfl

end LinkKey

/-- A link joins its two ends, either way around. -/
def Link.Joins (l : Link) (a b : Nat) : Prop :=
  (l.citing, l.cited) = (a, b) ∨ (l.citing, l.cited) = (b, a)

/-! ### Opening citations by their slots -/

namespace Citing

variable {c : Citing} {i j slot : Nat} {ids : Nat → OpinionId}

/-- An opening citation stands at its slot only. -/
theorem slot_of_getElem? (h : c.openings[slot]? = some (i, j)) :
    c.cites i j = true ∧ c.slot i j = slot := by
  obtain ⟨hlt, heq⟩ := List.getElem?_eq_some_iff.mp h
  have hmem : (i, j) ∈ c.openings := List.mem_of_getElem? h
  obtain ⟨hcites, hback⟩ := mem_openings.mp hmem
  refine ⟨hcites, ?_⟩
  rw [Citing.slot, opening, if_pos (opens_iff.mpr hback), ← heq, c.nodup_openings.idxOf_getElem]

/-- The slot of two opinions that are joined is where one of their citations opens a link. -/
theorem getElem?_openings_iff :
    (c.openings[slot]? = some (i, j) ∨ c.openings[slot]? = some (j, i)) ↔
      (c.cites i j = true ∧ slot = c.slot i j) ∨ (c.cites j i = true ∧ slot = c.slot j i) := by
  have hat : ∀ {i j}, c.cites i j = true → c.openings[c.slot i j]? = some (i, j) ∨
      c.openings[c.slot i j]? = some (j, i) := by
    intro i j hcites
    rw [getElem?_slot hcites, opening]
    split
    · exact Or.inl rfl
    · exact Or.inr rfl
  constructor
  · intro h
    rcases h with h | h
    · exact Or.inl ⟨(slot_of_getElem? h).1, (slot_of_getElem? h).2.symm⟩
    · exact Or.inr ⟨(slot_of_getElem? h).1, (slot_of_getElem? h).2.symm⟩
  · intro h
    rcases h with ⟨hcites, rfl⟩ | ⟨hcites, rfl⟩
    · exact hat hcites
    · exact (hat hcites).symm

/-- The link at a slot is that of the opening citation at that place. -/
theorem getElem?_links {l : Link} :
    (c.links ids)[slot]? = some l ↔
      ∃ e, c.openings[slot]? = some e ∧ linkAfter ids c.citations e = l := by
  rw [links, linksAfter, ← openings, List.getElem?_map, Option.map_eq_some_iff]

end Citing

namespace Network

/-- The link at a slot joins two opinions. -/
def JoinsAt (g : Network) (slot a b : Nat) : Prop :=
  ∃ l : Link, g.links[slot]? = some l ∧ l.Joins a b

namespace JoinsAt

variable {g : Network} {slot a b a' b' : Nat}

theorem symm (h : g.JoinsAt slot a b) : g.JoinsAt slot b a := by
  obtain ⟨l, hl, hjoins⟩ := h
  exact ⟨l, hl, Or.symm hjoins⟩

theorem slot_lt (h : g.JoinsAt slot a b) : slot < g.linkCount := by
  obtain ⟨l, hl, -⟩ := h
  exact (Array.getElem?_eq_some_iff.mp hl).1

/-- A link has no more than two ends. -/
theorem eq_or_swap (h : g.JoinsAt slot a b) (h' : g.JoinsAt slot a' b') :
    (a' = a ∧ b' = b) ∨ (a' = b ∧ b' = a) := by
  obtain ⟨l, hl, hjoins⟩ := h
  obtain ⟨l', hl', hjoins'⟩ := h'
  obtain rfl : l = l' := Option.some.inj (hl.symm.trans hl')
  rcases hjoins with h | h <;> rcases hjoins' with h' | h' <;> simp_all

end JoinsAt

/-- The link table of a network is a faithful collapse of its citations. -/
structure CollapsesCitations (g : Network) : Prop where
  /-- A link leads from an opinion to one that it cites. -/
  cites : ∀ l ∈ g.links, g.Cites l.citing l.cited
  /-- Two opinions that are joined by a citation have one link and no more. -/
  unique : ∀ a b, g.Cites a b ∨ g.Cites b a → ∃! slot, g.JoinsAt slot a b
  /-- The key of a link holds the identifiers of its ends. -/
  key : ∀ l ∈ g.links,
    (g.idAt? l.citing = some l.key.low ∧ g.idAt? l.cited = some l.key.high) ∨
    (g.idAt? l.citing = some l.key.high ∧ g.idAt? l.cited = some l.key.low)
  /-- The smaller identifier is the low one. -/
  low_lt_high : ∀ l ∈ g.links, compare l.key.low l.key.high = .lt
  /-- A link is mutual if both of its ends cite each other. -/
  isMutual_iff : ∀ l ∈ g.links, l.isMutual = true ↔
    g.Cites l.citing l.cited ∧ g.Cites l.cited l.citing
  /-- A mutual link belongs to the earlier opinion. -/
  citing_lt : ∀ l ∈ g.links, l.isMutual = true → l.citing < l.cited
  /-- The slots follow the order of the citing and then of the cited opinions. -/
  increasing : (g.links.toList.map fun l => (l.citing, l.cited)).Pairwise
    (Prod.Lex (· < ·) (· < ·))
  /-- The lookup does not ask which of the two opinions cites. -/
  linkBetween_comm : ∀ a b, g.linkBetween? a b = g.linkBetween? b a
  /-- The lookup finds the link of two opinions. -/
  linkBetween_eq_some : ∀ a b slot, g.linkBetween? a b = some slot ↔ g.JoinsAt slot a b
  /-- The lookup finds nothing for opinions that are not joined. -/
  linkBetween_eq_none : ∀ a b, g.linkBetween? a b = none ↔ ¬ g.Cites a b ∧ ¬ g.Cites b a
  linkBetween_self : ∀ a, g.linkBetween? a a = none

theorem idAt?_of_lt {g : Network} {i : Nat} (h : i < g.size) :
    g.idAt? i = some (Citing.idAt g.opinions.toList i) := by
  rw [size] at h
  rw [idAt?, Citing.idAt, Array.getElem?_toList, Array.getElem?_eq_getElem h]
  rfl

theorem lt_of_idAt?_eq_some {g : Network} {i : Nat} {id : OpinionId} (h : g.idAt? i = some id) :
    i < g.size := by
  obtain ⟨o, ho, -⟩ := Option.map_eq_some_iff.mp h
  exact (Array.getElem?_eq_some_iff.mp ho).1

namespace Drawn

variable {g : Network} (hg : g.Drawn) {a b slot : Nat} {l : Link}
include hg

/-! ### Links -/

/-- The link at a slot is that of the opening citation at that place. -/
theorem getElem?_links : g.links[slot]? = some l ↔
    ∃ e, g.citing.openings[slot]? = some e ∧
      Citing.linkAfter (Citing.idAt g.opinions.toList) g.citing.citations e = l := by
  rw [← Array.getElem?_toList, hg.links, Citing.getElem?_links]

/-- A link is that of an opening citation. -/
theorem exists_opening (h : l ∈ g.links) : ∃ i j, (i, j) ∈ g.citing.openings ∧
    Citing.linkAfter (Citing.idAt g.opinions.toList) g.citing.citations (i, j) = l := by
  obtain ⟨slot, hslot⟩ := Array.mem_iff_getElem?.mp h
  obtain ⟨⟨i, j⟩, hopening, hl⟩ := hg.getElem?_links.mp hslot
  exact ⟨i, j, List.mem_of_getElem? hopening, hl⟩

/-- The slot at which two opinions are joined is the slot of their citations. -/
theorem joinsAt_iff : g.JoinsAt slot a b ↔
    (g.Cites a b ∧ slot = g.citing.slot a b) ∨ (g.Cites b a ∧ slot = g.citing.slot b a) := by
  rw [← citing_iff, ← citing_iff, ← Citing.getElem?_openings_iff]
  constructor
  · intro h
    obtain ⟨l, hl, hjoins⟩ := h
    obtain ⟨e, he, rfl⟩ := hg.getElem?_links.mp hl
    rcases hjoins with heq | heq
    · exact Or.inl (he.trans (congrArg some heq))
    · exact Or.inr (he.trans (congrArg some heq))
  · intro h
    rcases h with h | h
    · exact ⟨_, hg.getElem?_links.mpr ⟨_, h, rfl⟩, Or.inl rfl⟩
    · exact ⟨_, hg.getElem?_links.mpr ⟨_, h, rfl⟩, Or.inr rfl⟩

/-- Two opinions that are joined have a slot, whichever of them cites. -/
theorem exists_slot (h : g.Cites a b ∨ g.Cites b a) : ∃ slot, g.JoinsAt slot a b := by
  rcases h with h | h
  · exact ⟨_, hg.joinsAt_iff.mpr (Or.inl ⟨h, rfl⟩)⟩
  · exact ⟨_, hg.joinsAt_iff.mpr (Or.inr ⟨h, rfl⟩)⟩

/-- If both opinions cite each other, their citations have the same slot. -/
theorem slot_unique {slot' : Nat} (h : g.JoinsAt slot a b) (h' : g.JoinsAt slot' a b) :
    slot = slot' := by
  rw [hg.joinsAt_iff] at h h'
  rcases h with ⟨hab, rfl⟩ | ⟨hba, rfl⟩ <;> rcases h' with ⟨hab', rfl⟩ | ⟨hba', rfl⟩
  · rfl
  · exact Citing.slot_comm (citing_iff.mpr hab) (citing_iff.mpr hba')
  · exact Citing.slot_comm (citing_iff.mpr hba) (citing_iff.mpr hab')
  · rfl

/-- The citations of a link are those between its ends. -/
theorem slot_eq_iff (hl : g.links[slot]? = some l) (h : g.Cites a b) :
    slot = g.citing.slot a b ↔ l.Joins a b := by
  constructor
  · intro hslot
    obtain ⟨l', hl', hjoins⟩ := hg.joinsAt_iff.mpr (Or.inl ⟨h, hslot⟩)
    rw [hl, Option.some.injEq] at hl'
    rwa [hl']
  · intro hjoins
    exact hg.slot_unique ⟨l, hl, hjoins⟩ (hg.joinsAt_iff.mpr (Or.inl ⟨h, rfl⟩))

/-! ### The lookup -/

theorem slot?_eq_none_iff : g.cites.slot? a b = none ↔ ¬ g.Cites a b := by
  rw [Option.eq_none_iff_forall_ne_some]
  constructor
  · intro h hcites
    exact h _ (hg.slot?_cites_eq_some_iff.mpr ⟨hcites, rfl⟩)
  · intro h slot hslot
    exact h (hg.slot?_cites_eq_some_iff.mp hslot).1

/-- The lookup finds the slot at which two opinions are joined. -/
theorem linkBetween?_eq_some_iff : g.linkBetween? a b = some slot ↔ g.JoinsAt slot a b := by
  rw [hg.joinsAt_iff, linkBetween?, Option.orElse_eq_orElse, Option.orElse_eq_or,
    Option.or_eq_some_iff, hg.slot?_eq_none_iff, hg.slot?_cites_eq_some_iff,
    hg.slot?_cites_eq_some_iff]
  constructor
  · intro h
    rcases h with h | ⟨-, h⟩
    · exact Or.inl h
    · exact Or.inr h
  · intro h
    rcases h with h | ⟨hba, rfl⟩
    · exact Or.inl h
    · -- The first lookup answers if both opinions cite each other, with the same slot.
      by_cases hab : g.Cites a b
      · exact Or.inl ⟨hab, Citing.slot_comm (citing_iff.mpr hba) (citing_iff.mpr hab)⟩
      · exact Or.inr ⟨hab, hba, rfl⟩

theorem linkBetween?_eq_none_iff :
    g.linkBetween? a b = none ↔ ¬ g.Cites a b ∧ ¬ g.Cites b a := by
  rw [linkBetween?, Option.orElse_eq_orElse, Option.orElse_eq_or, Option.or_eq_none_iff,
    hg.slot?_eq_none_iff, hg.slot?_eq_none_iff]

theorem linkBetween?_comm (a b : Nat) : g.linkBetween? a b = g.linkBetween? b a := by
  have hjoins : ∀ slot, g.linkBetween? a b = some slot ↔ g.linkBetween? b a = some slot := by
    intro slot
    rw [hg.linkBetween?_eq_some_iff, hg.linkBetween?_eq_some_iff, hg.joinsAt_iff,
      hg.joinsAt_iff, or_comm]
  exact Option.ext hjoins

/-! ### The collapse -/

theorem idAt_ne (h : g.Cites a b) :
    Citing.idAt g.opinions.toList a ≠ Citing.idAt g.opinions.toList b := fun heq =>
  h.ne (Citing.idAt_inj hg.wellPlaced a (Citing.left_lt _ (citing_iff.mpr h)) b
    (Citing.right_lt _ (citing_iff.mpr h)) heq)

theorem collapsesCitations : g.CollapsesCitations where
  cites := by
    intro l hl
    obtain ⟨i, j, hopening, rfl⟩ := hg.exists_opening hl
    exact citing_iff.mp (Citing.mem_openings.mp hopening).1
  unique := by
    intro a b hjoined
    obtain ⟨slot, hslot⟩ := hg.exists_slot hjoined
    exact ⟨slot, hslot, fun slot' hslot' => hg.slot_unique hslot' hslot⟩
  key := by
    intro l hl
    obtain ⟨i, j, hopening, rfl⟩ := hg.exists_opening hl
    have hcites : g.Cites i j := citing_iff.mp (Citing.mem_openings.mp hopening).1
    dsimp only [Citing.linkAfter]
    rw [idAt?_of_lt hcites.left_lt, idAt?_of_lt hcites.right_lt]
    rcases LinkKey.of_eq (Citing.idAt g.opinions.toList i) (Citing.idAt g.opinions.toList j)
      with hkey | hkey
    · rw [hkey]
      exact Or.inl ⟨rfl, rfl⟩
    · rw [hkey]
      exact Or.inr ⟨rfl, rfl⟩
  low_lt_high := by
    intro l hl
    obtain ⟨i, j, hopening, rfl⟩ := hg.exists_opening hl
    exact LinkKey.compare_of (hg.idAt_ne (citing_iff.mp (Citing.mem_openings.mp hopening).1))
  isMutual_iff := by
    intro l hl
    obtain ⟨i, j, hopening, rfl⟩ := hg.exists_opening hl
    have hcites := (Citing.mem_openings.mp hopening).1
    dsimp only [Citing.linkAfter]
    rw [decide_eq_true_iff, Citing.mem_citations, citing_iff, ← citing_iff (i := i)]
    exact (and_iff_right hcites).symm
  citing_lt := by
    intro l hl hmutual
    obtain ⟨i, j, hopening, rfl⟩ := hg.exists_opening hl
    obtain ⟨hcites, hback⟩ := Citing.mem_openings.mp hopening
    dsimp only [Citing.linkAfter] at hmutual ⊢
    rw [decide_eq_true_iff, Citing.mem_citations] at hmutual
    exact Nat.lt_of_le_of_ne (hback hmutual) (g.citing.ne hcites)
  increasing := by
    rw [hg.links, Citing.links, Citing.linksAfter, List.map_map]
    exact List.pairwise_map.mpr Citing.pairwise_openings
  linkBetween_comm := hg.linkBetween?_comm
  linkBetween_eq_some := fun _ _ _ => hg.linkBetween?_eq_some_iff
  linkBetween_eq_none := fun _ _ => hg.linkBetween?_eq_none_iff
  linkBetween_self := by
    intro a
    have hself : ¬ g.Cites a a := fun h => h.ne rfl
    exact hg.linkBetween?_eq_none_iff.mpr ⟨hself, hself⟩

end Drawn

/-- **The link table is a faithful collapse of the citations**, for every list of records that is
accepted. -/
theorem ofRecords_collapsesCitations {records : List OpinionRecord} {g : Network}
    (h : ofRecords records = .ok g) : g.CollapsesCitations := by
  obtain ⟨-, hg⟩ := ofRecords_drawn h
  exact hg.collapsesCitations

theorem fiveRecords_collapsesCitations : ∃ g, ofRecords fiveRecords = .ok g ∧
    g.linkBetween? 1 2 = some 1 ∧ g.linkBetween? 3 0 = none ∧ g.CollapsesCitations := by
  obtain ⟨g, hok, hlinks⟩ := exists_ok_of_map_toOption (x := ofRecords fiveRecords)
    (f := fun g => (g.linkBetween? 1 2, g.linkBetween? 3 0)) (b := (some 1, none)) (by cbv)
  obtain ⟨hjoined, hapart⟩ := Prod.mk.inj hlinks
  exact ⟨g, hok, hjoined, hapart, ofRecords_collapsesCitations hok⟩

end Network

end Precedent
