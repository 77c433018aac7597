import Mathlib.Data.Set.Function
import Mathlib.Order.Interval.Set.Defs
import Precedent.Proofs.Trim.ParentLinks

/-!
# Precedent.Proofs.Trim.Positions

**The opinions of a cut are numbered in their order.** Their indices increase, so the position of an
opinion is one more than the number of those that are kept before it, and the lookup by bisection
finds the position of every opinion that is kept and none for the others. Since a link is kept only
together with its ends, a lookup of an end never fails.
-/

namespace Precedent

/-- In increasing order a number stands behind as many others as are smaller. -/
theorem countP_lt_of_getElem? {ns : List Nat} (h : ns.Pairwise (· < ·)) {place n : Nat}
    (hn : ns[place]? = some n) : ns.countP (· < n) = place := by
  induction ns generalizing place with
  | nil => cases hn
  | cons m rest ih =>
      obtain ⟨hhead, htail⟩ := List.pairwise_cons.mp h
      cases place with
      | zero =>
          obtain rfl : m = n := Option.some.inj hn
          have hnone : rest.countP (· < m) = 0 :=
            List.countP_eq_zero.mpr fun k hk => by simpa using Nat.le_of_lt (hhead k hk)
          rw [List.countP_cons, hnone, if_neg (by simp)]
      | succ place =>
          have hlt : m < n := hhead n (List.mem_of_getElem? hn)
          rw [List.countP_cons, ih htail hn, if_pos (decide_eq_true hlt)]

namespace TrimmedMap

variable {t : TrimmedMap} {i j place p : Nat} {k : KeptOpinion}

/-- How many of the opinions that are kept come before an index. -/
def keptBefore (t : TrimmedMap) (i : Nat) : Nat := t.keptIndices.countP (· < i)

/-! ### Bisection -/

theorem getElem?_keptIndices (hk : t.opinions[place]? = some k) :
    t.keptIndices[place]? = some k.index := by
  rw [keptIndices, List.getElem?_map, hk, Option.map_some]

theorem exists_getElem?_opinions (hi : i ∈ t.keptIndices) :
    ∃ (place : Nat) (k : KeptOpinion), t.opinions[place]? = some k ∧ k.index = i := by
  obtain ⟨k, hk, rfl⟩ := List.mem_map.mp hi
  obtain ⟨place, hplace⟩ := List.getElem?_of_mem hk
  exact ⟨place, k, hplace, rfl⟩

/-- A position is found only for what is kept. -/
theorem mem_keptIndices_of_positionOf? (h : t.positionOf? i = some p) : i ∈ t.keptIndices := by
  unfold positionOf? at h
  obtain ⟨k, hk, -⟩ := Option.map_eq_some_iff.mp h
  obtain ⟨place, hplace, hat⟩ := Option.bind_eq_some_iff.mp hk
  obtain ⟨-, -, hvalue⟩ := value_of_bisect hplace
  rw [hat] at hvalue
  rw [List.getElem?_toArray] at hat
  exact List.mem_map.mpr ⟨k, List.mem_of_getElem? hat, hvalue⟩

/-- The position of an opinion that is kept is found, since the indices increase. -/
theorem positionOf?_of_getElem? (hinc : t.keptIndices.Pairwise (· < ·))
    (hk : t.opinions[place]? = some k) : t.positionOf? k.index = some k.position := by
  have hvalue : ∀ {q : Nat} {l : KeptOpinion}, t.opinions[q]? = some l →
      t.opinions.toArray[q]?.elim 0 KeptOpinion.index = l.index := by
    intro q l hl
    rw [List.getElem?_toArray, hl, Option.elim_some]
  have hfound : bisect (fun q => t.opinions.toArray[q]?.elim 0 KeptOpinion.index) k.index 0
      t.opinions.toArray.size = some place := by
    refine bisect_of_value (fun q r _ hqr hr => ?_) (Nat.zero_le _)
      (List.getElem?_eq_some_iff.mp hk).1 (hvalue hk)
    rw [hvalue (List.getElem?_eq_getElem (hqr.trans hr)), hvalue (List.getElem?_eq_getElem hr)]
    exact List.pairwise_iff_getElem.mp (List.pairwise_map.mp hinc) q r (hqr.trans hr) hr hqr
  unfold positionOf?
  dsimp only
  rw [hfound, Option.bind_some, List.getElem?_toArray, hk, Option.map_some]

end TrimmedMap

/-! ### Numbered cuts -/

/-- The opinions of a cut are numbered in their order, and the numbers can be looked up. -/
structure TrimmedMap.NumbersKept (t : TrimmedMap) (a : Atlas) : Prop where
  increasing : t.keptIndices.Pairwise (· < ·)
  /-- An opinion is kept if the number of its degree is below the limit. -/
  mem_iff : ∀ i, i ∈ t.keptIndices ↔ i < a.network.size ∧ (a.degrees.node i).index < t.limit
  position_eq : ∀ k ∈ t.opinions, k.position = 1 + t.keptBefore k.index
  /-- The position of what is kept is found, and none for anything else. -/
  positionOf?_eq : ∀ i,
    t.positionOf? i = if i ∈ t.keptIndices then some (1 + t.keptBefore i) else none
  /-- The positions of what is kept are the numbers from 1 on, each of them once, -/
  bijOn : Set.BijOn t.positionOf? {i | i ∈ t.keptIndices} (some '' Set.Icc 1 t.opinions.length)
  /-- and they are in the order of the indices. -/
  lt_iff : ∀ i j p q, t.positionOf? i = some p → t.positionOf? j = some q → (i < j ↔ p < q)
  /-- Both ends of a link have a position. -/
  ends : ∀ l ∈ t.links,
    (t.positionOf? l.source).isSome = true ∧ (t.positionOf? l.target).isSome = true

namespace Atlas

variable {a : Atlas} {limit : Nat}

section

variable {t : TrimmedMap} (h : a.trim limit = .ok t)
include h

theorem keptIndices_of_trim :
    t.keptIndices = (List.range a.network.size).filter (a.keeps limit) := by
  rw [TrimmedMap.keptIndices, opinions_of_trim h, map_index_keptOpinions]

theorem pairwise_keptIndices : t.keptIndices.Pairwise (· < ·) := by
  rw [keptIndices_of_trim h]
  exact List.pairwise_lt_range.filter _

/-- Each opinion that is kept has one position more than places before it. -/
theorem positionOf?_of_place {place : Nat} {k : KeptOpinion} (hk : t.opinions[place]? = some k) :
    t.positionOf? k.index = some (place + 1) := by
  rw [TrimmedMap.positionOf?_of_getElem? (pairwise_keptIndices h) hk]
  rw [opinions_of_trim h] at hk
  rw [position_of_getElem? hk]

theorem keptBefore_of_place {place : Nat} {k : KeptOpinion} (hk : t.opinions[place]? = some k) :
    t.keptBefore k.index = place :=
  countP_lt_of_getElem? (pairwise_keptIndices h) (TrimmedMap.getElem?_keptIndices hk)

theorem positionOf?_eq_ite (i : Nat) :
    t.positionOf? i = if i ∈ t.keptIndices then some (1 + t.keptBefore i) else none := by
  split
  · next hi =>
      obtain ⟨place, k, hk, rfl⟩ := TrimmedMap.exists_getElem?_opinions hi
      rw [positionOf?_of_place h hk, keptBefore_of_place h hk, Nat.add_comm]
  · next hi =>
      exact Option.eq_none_iff_forall_ne_some.mpr fun p hp =>
        hi (TrimmedMap.mem_keptIndices_of_positionOf? hp)

/-- The order of the positions is that of the indices. -/
theorem lt_iff_of_positionOf? {i j p q : Nat} (hi : t.positionOf? i = some p)
    (hj : t.positionOf? j = some q) : i < j ↔ p < q := by
  obtain ⟨place, k, hk, rfl⟩ :=
    TrimmedMap.exists_getElem?_opinions (TrimmedMap.mem_keptIndices_of_positionOf? hi)
  obtain ⟨place', k', hk', rfl⟩ :=
    TrimmedMap.exists_getElem?_opinions (TrimmedMap.mem_keptIndices_of_positionOf? hj)
  obtain rfl : place + 1 = p := Option.some.inj ((positionOf?_of_place h hk).symm.trans hi)
  obtain rfl : place' + 1 = q := Option.some.inj ((positionOf?_of_place h hk').symm.trans hj)
  have hkey : ∀ {r r' : Nat} {l l' : KeptOpinion}, t.opinions[r]? = some l →
      t.opinions[r']? = some l' → r < r' → l.index < l'.index := by
    intro r r' l l' hl hl' hlt
    obtain ⟨hr, rfl⟩ := List.getElem?_eq_some_iff.mp hl
    obtain ⟨hr', rfl⟩ := List.getElem?_eq_some_iff.mp hl'
    exact List.pairwise_iff_getElem.mp (List.pairwise_map.mp (pairwise_keptIndices h)) r r' hr hr'
      hlt
  rw [Nat.add_lt_add_iff_right]
  constructor
  · intro hlt
    rcases Nat.lt_trichotomy place place' with hplace | rfl | hplace
    · exact hplace
    · obtain rfl := Option.some.inj (hk.symm.trans hk')
      exact absurd hlt (Nat.lt_irrefl _)
    · exact absurd hlt (Nat.lt_asymm (hkey hk' hk hplace))
  · exact hkey hk hk'

theorem bijOn_positionOf? : Set.BijOn t.positionOf? {i | i ∈ t.keptIndices}
    (some '' Set.Icc 1 t.opinions.length) := by
  refine ⟨fun i hi => ?_, fun i hi j hj heq => ?_, ?_⟩
  · obtain ⟨place, k, hk, rfl⟩ := TrimmedMap.exists_getElem?_opinions hi
    have hlt := (List.getElem?_eq_some_iff.mp hk).1
    exact ⟨place + 1, ⟨Nat.le_add_left 1 place, hlt⟩, (positionOf?_of_place h hk).symm⟩
  · obtain ⟨place, k, hk, rfl⟩ := TrimmedMap.exists_getElem?_opinions hi
    have hposition := positionOf?_of_place h hk
    have hposition' := heq.symm.trans hposition
    rcases Nat.lt_trichotomy k.index j with hlt | hindex | hlt
    · exact absurd ((lt_iff_of_positionOf? h hposition hposition').mp hlt) (Nat.lt_irrefl _)
    · exact hindex
    · exact absurd ((lt_iff_of_positionOf? h hposition' hposition).mp hlt) (Nat.lt_irrefl _)
  · rintro - ⟨p, ⟨hpos, hle⟩, rfl⟩
    -- The opinion at a position stands one place before it.
    have hk : t.opinions[p - 1]? = some t.opinions[p - 1] := List.getElem?_eq_getElem (by omega)
    refine ⟨_, List.mem_map_of_mem (List.mem_of_getElem? hk), ?_⟩
    rw [positionOf?_of_place h hk, Nat.sub_add_cancel hpos]

end

theorem numbersKept (ha : a.Derived) {t : TrimmedMap} (h : a.trim limit = .ok t) :
    t.NumbersKept a where
  increasing := pairwise_keptIndices h
  mem_iff := by
    intro i
    rw [TrimmedMap.keptIndices, opinions_of_trim h, mem_index_keptOpinions, Degree.isBelow_iff,
      trim_eq_ok h]
  position_eq := by
    intro k hk
    obtain ⟨place, hplace⟩ := List.getElem?_of_mem hk
    rw [keptBefore_of_place h hplace, Nat.add_comm]
    rw [opinions_of_trim h] at hplace
    exact position_of_getElem? hplace
  positionOf?_eq := positionOf?_eq_ite h
  bijOn := bijOn_positionOf? h
  lt_iff := fun _ _ _ _ => lt_iff_of_positionOf? h
  ends := by
    intro l hl
    have hfound : ∀ {i}, i ∈ t.keptIndices → (t.positionOf? i).isSome = true := by
      intro i hi
      rw [positionOf?_eq_ite h, if_pos hi]
      rfl
    rw [links_of_trim h] at hl
    have hends := ends_mem_of_mem_keptLinks ha.drawn ha.genealogy hl
    rw [← opinions_of_trim h] at hends
    exact ⟨hfound hends.1, hfound hends.2⟩

/-- **Cuts are numbered in order,** for every list of records that is accepted, all requests that
have gone before and every limit from one on. -/
theorem build_numbersKept {records : List OpinionRecord} {settings : Settings}
    (h : build records settings = .ok a) (requests : List AtlasRequest) (hpos : 1 ≤ limit) :
    ∃ t, (a.performAll requests).trim limit = .ok t ∧ t.limit = limit ∧
      t.mode = (a.performAll requests).mode ∧ t.NumbersKept (a.performAll requests) :=
  ⟨_, trim_of_ne_zero (Nat.ne_of_gt hpos), rfl, rfl,
    numbersKept (derived_performAll h requests) (trim_of_ne_zero (Nat.ne_of_gt hpos))⟩

/-- The third of five opinions is left out, so the two behind it move up; it has no position, and
neither has an index past the last one. -/
theorem build_numbersKept_fiveRecords : ∃ a t, build fiveRecords .default = .ok a ∧
    (a.performAll [.setMode .genealogy]).trim 3 = .ok t ∧
    (t.keptIndices = [0, 1, 3, 4] ∧
      (List.range 6).map t.positionOf? = [some 1, some 2, none, some 3, some 4, none]) ∧
    t.NumbersKept (a.performAll [.setMode .genealogy]) := by
  have hbuild : ∀ settings, (build fiveRecords settings).toOption.map (fun a =>
      ((a.performAll [.setMode .genealogy]).trim 3).toOption.map fun t =>
        (t.keptIndices, (List.range 6).map t.positionOf?)) =
      some (some ([0, 1, 3, 4], [some 1, some 2, none, some 3, some 4, none])) := by
    intro settings
    cbv
  obtain ⟨a, hok, hcut⟩ := exists_ok_of_map_toOption (hbuild .default)
  obtain ⟨t, htrim, -, -, hnumbers⟩ :=
    build_numbersKept hok [.setMode .genealogy] (show 1 ≤ 3 by decide)
  rw [htrim] at hcut
  exact ⟨a, t, hok, htrim, Prod.mk.inj (Option.some.inj hcut), hnumbers⟩

end Atlas

end Precedent
