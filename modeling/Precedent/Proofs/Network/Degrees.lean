import Precedent.Proofs.Network.Distances
import Precedent.Proofs.Network.Walk

/-!
# Precedent.Proofs.Network.Degrees

**What it takes to fall under a limit.** An opinion other than the two roots falls under a limit of
at most nine when its two distances add up to no more than the limit. A link does when its two
depths add up to no more than the limit and one, since both of them count the link itself. In terms
of chains: the opinion, or the link, is passed on the way from the latest opinion to the earliest
within the limit.
-/

namespace Precedent

namespace Degree

variable {limit : Nat} {forward backward : Option Nat}

theorem isBelow_iff {d : Degree} : d.isBelow limit = true ↔ d.index < limit := decide_eq_true_iff

theorem isBelow_ofIndex_iff {n : Nat} (hle : limit ≤ 9) :
    (ofIndex n).isBelow limit = true ↔ n < limit := by
  rw [isBelow_iff, index_ofIndex]
  omega

theorem not_isBelow_distant (hle : limit ≤ 9) : ¬ distant.isBelow limit = true := by
  rw [isBelow_iff]
  exact Nat.not_lt_of_le hle

theorem isBelow_first (hpos : 1 ≤ limit) : first.isBelow limit = true := isBelow_iff.mpr hpos

theorem isBelow_ofNode_iff {index size : Nat} (hpos : 1 ≤ limit) (hle : limit ≤ 9) :
    (ofNode index size forward backward).isBelow limit = true ↔
      index = 0 ∨ index + 1 = size ∨ forward = some 0 ∨ backward = some 0 ∨
        ∃ f b, forward = some f ∧ backward = some b ∧ f + b ≤ limit := by
  unfold ofNode
  by_cases hroot : index = 0 ∨ index + 1 = size
  · rw [if_pos (by simpa using hroot)]
    refine iff_of_true (isBelow_first hpos) ?_
    tauto
  · rw [if_neg (by simpa using hroot)]
    have hroot' := not_or.mp hroot
    simp only [hroot'.1, hroot'.2, false_or]
    rcases forward with _ | _ | f
    · rcases backward with _ | _ | b
      · simpa using not_isBelow_distant hle
      · simpa using isBelow_first hpos
      · simpa using not_isBelow_distant hle
    · simpa using isBelow_first hpos
    · rcases backward with _ | _ | b
      · simpa using not_isBelow_distant hle
      · simpa using isBelow_first hpos
      · show (ofIndex (f + 1 + (b + 1) - 1)).isBelow limit = true ↔ _
        rw [isBelow_ofIndex_iff hle]
        simp only [Option.some.injEq, Nat.succ_ne_zero, false_or, exists_and_left,
          exists_eq_left']
        omega

theorem isBelow_ofLink_iff (hpos : 1 ≤ limit) (hle : limit ≤ 9) :
    (ofLink forward backward).isBelow limit = true ↔
      ∃ f b, forward = some f ∧ backward = some b ∧ f + b ≤ limit + 1 := by
  unfold ofLink
  rcases forward with _ | f
  · simpa using not_isBelow_distant hle
  · rcases backward with _ | b
    · simpa using not_isBelow_distant hle
    · show (ofIndex (f + b - 2)).isBelow limit = true ↔ _
      rw [isBelow_ofIndex_iff hle]
      simp only [Option.some.injEq, exists_and_left, exists_eq_left']
      omega

end Degree

namespace Distances

variable {d : Distances} {size links i : Nat}

theorem node_degrees (h : i < size) :
    (d.degrees size links).node i = .ofNode i size (d.forward.at? i) (d.backward.at? i) := by
  unfold Degrees.node degrees
  rw [Array.getElem?_ofFn, dif_pos h]
  rfl

theorem link_degrees (h : i < links) :
    (d.degrees size links).link i = .ofLink (d.linkForward.at? i) (d.linkBackward.at? i) := by
  unfold Degrees.link degrees
  rw [Array.getElem?_ofFn, dif_pos h]
  rfl

end Distances

namespace Network

/-- The degrees of a network. -/
def degrees (g : Network) : Degrees := g.distances.degrees g.size g.linkCount

/-- The two depths of a mutual link may come from its two citations, and both from the same end. If
the other end is under the limit as well, one of the citations is crossed within the limit. -/
theorem exists_crosses_of_mutual {g : Network} {limit i j b f : Nat} (hij : g.Cites i j)
    (hji : g.Cites j i) (hbackward : Chain g.Cites g.latest b j)
    (hforward : Chain g.Cites j f earliest) (hsum : b + f + 1 ≤ limit)
    (hi : i = earliest ∨ i = g.latest ∨ ∃ w : CitationWalk g, w.length ≤ limit ∧ w.Visits i) :
    ∃ w : CitationWalk g, w.length ≤ limit ∧ (w.Crosses i j ∨ w.Crosses j i) := by
  -- Within the limit we may go from `j` to `i` if `i` is near to the earliest opinion, and from `i`
  -- to `j` if it is near to the latest one.
  have hback : ∀ f', Chain g.Cites i f' earliest → b + f' + 1 ≤ limit →
      ∃ w : CitationWalk g, w.length ≤ limit ∧ (w.Crosses i j ∨ w.Crosses j i) := by
    intro f' hchain hle
    obtain ⟨w, hlength, hcrosses⟩ :=
      CitationWalk.exists_crosses_iff.mpr ⟨hji, b, f', hbackward, hchain, hle⟩
    exact ⟨w, hlength, Or.inr hcrosses⟩
  have hforth : ∀ b', Chain g.Cites g.latest b' i → b' + f + 1 ≤ limit →
      ∃ w : CitationWalk g, w.length ≤ limit ∧ (w.Crosses i j ∨ w.Crosses j i) := by
    intro b' hchain hle
    obtain ⟨w, hlength, hcrosses⟩ :=
      CitationWalk.exists_crosses_iff.mpr ⟨hij, b', f, hchain, hforward, hle⟩
    exact ⟨w, hlength, Or.inl hcrosses⟩
  rw [CitationWalk.exists_visits_iff] at hi
  rcases hi with rfl | rfl | ⟨b', f', hbackward', hforward', hsum'⟩
  · exact hback 0 .nil (by omega)
  · exact hforth 0 .nil (by omega)
  · by_cases hnear : b' ≤ b
    · exact hforth b' hbackward' (by omega)
    · exact hback f' hforward' (by omega)

namespace Drawn

variable {g : Network} (hg : g.Drawn) {limit i j slot : Nat} {l : Link}
include hg

/-! ### Opinions under a limit -/

/-- A walk does not leave the network. -/
theorem lt_of_visits {w : CitationWalk g} (h : w.Visits i) : i < g.size := by
  obtain ⟨b, f, hbackward, -, -⟩ :=
    CitationWalk.exists_visits_iff.mp ⟨w, Nat.le_refl w.length, h⟩
  cases hbackward with
  | nil => exact hg.latest_lt
  | snoc _ hcites => exact hcites.right_lt

/-- An opinion falls under a limit if it is a root or a walk within the limit visits it. -/
theorem isBelow_node_iff (hpos : 1 ≤ limit) (hle : limit ≤ 9) (hi : i < g.size) :
    (g.degrees.node i).isBelow limit = true ↔
      i = earliest ∨ i = g.latest ∨ ∃ w : CitationWalk g, w.length ≤ limit ∧ w.Visits i := by
  have hlatest : i + 1 = g.size ↔ i = g.latest := by
    rw [latest]
    omega
  rw [degrees, Distances.node_degrees hi, Degree.isBelow_ofNode_iff hpos hle, hlatest,
    CitationWalk.exists_visits_iff]
  constructor
  · intro h
    rcases h with rfl | rfl | hforward | hbackward | ⟨f, b, hforward, hbackward, hsum⟩
    · exact Or.inl rfl
    · exact Or.inr (Or.inl rfl)
    · exact Or.inl ((hg.forward_least i 0).mp hforward).1.eq_of_zero
    · exact Or.inr (Or.inl ((hg.backward_least i 0).mp hbackward).1.eq_of_zero.symm)
    · exact Or.inr (Or.inr ⟨b, f, ((hg.backward_least i b).mp hbackward).1,
        ((hg.forward_least i f).mp hforward).1, by omega⟩)
  · intro h
    rcases h with rfl | rfl | ⟨b, f, hbackward, hforward, hsum⟩
    · exact Or.inl rfl
    · exact Or.inr (Or.inl rfl)
    · obtain ⟨b', hb', hble⟩ := hg.backward_least.exists_le hbackward
      obtain ⟨f', hf', hfle⟩ := hg.forward_least.exists_le hforward
      exact Or.inr (Or.inr (Or.inr (Or.inr ⟨f', b', hf', hb', by omega⟩)))

/-! ### Links under a limit -/

/-- A link falls under a limit if one of its citations is so near to the latest opinion, and one of
them so near to the earliest. They need not be the same citation. -/
theorem isBelow_link_iff (hpos : 1 ≤ limit) (hle : limit ≤ 9) (hl : g.links[slot]? = some l) :
    (g.degrees.link slot).isBelow limit = true ↔
      ∃ i j b, l.Joins i j ∧ g.Cites i j ∧ Chain g.Cites g.latest b i ∧
        ∃ i' j' f, l.Joins i' j' ∧ g.Cites i' j' ∧ Chain g.Cites j' f earliest ∧
          b + f + 1 ≤ limit := by
  have hslot : slot < g.linkCount := (Array.getElem?_eq_some_iff.mp hl).1
  rw [degrees, Distances.link_degrees hslot, Degree.isBelow_ofLink_iff hpos hle]
  constructor
  · intro h
    obtain ⟨f, b, hforward, hbackward, hsum⟩ := h
    obtain ⟨i, j, m, hcites, hat, hchain, rfl⟩ := ((hg.linkBackward_least slot b).mp hbackward).1
    obtain ⟨i', j', n, hcites', hat', hchain', rfl⟩ :=
      ((hg.linkForward_least slot f).mp hforward).1
    exact ⟨i, j, m, (hg.slot_eq_iff hl hcites).mp hat, hcites, hchain, i', j', n,
      (hg.slot_eq_iff hl hcites').mp hat', hcites', hchain', by omega⟩
  · intro h
    obtain ⟨i, j, m, hjoins, hcites, hchain, i', j', n, hjoins', hcites', hchain', hsum⟩ := h
    obtain ⟨b, hb, hble⟩ := hg.linkBackward_least.exists_le (i := slot) (n := m + 1)
      ⟨i, j, m, hcites, (hg.slot_eq_iff hl hcites).mpr hjoins, hchain, rfl⟩
    obtain ⟨f, hf, hfle⟩ := hg.linkForward_least.exists_le (i := slot) (n := n + 1)
      ⟨i', j', n, hcites', (hg.slot_eq_iff hl hcites').mpr hjoins', hchain', rfl⟩
    exact ⟨f, b, hf, hb, by omega⟩

/-- A link and its ends fall under a limit if a walk within the limit crosses one of its citations.
-/
theorem isBelow_ends_and_link_iff (hpos : 1 ≤ limit) (hle : limit ≤ 9)
    (hl : g.links[slot]? = some l) :
    ((g.degrees.node l.citing).isBelow limit = true ∧
      (g.degrees.node l.cited).isBelow limit = true ∧
      (g.degrees.link slot).isBelow limit = true) ↔
      ∃ w : CitationWalk g, w.length ≤ limit ∧
        (w.Crosses l.citing l.cited ∨ w.Crosses l.cited l.citing) := by
  have hcites : g.Cites l.citing l.cited := hg.collapsesCitations.cites l (Array.mem_of_getElem? hl)
  rw [hg.isBelow_node_iff hpos hle hcites.left_lt, hg.isBelow_node_iff hpos hle hcites.right_lt,
    hg.isBelow_link_iff hpos hle hl]
  constructor
  · intro h
    obtain ⟨hciting, hcited, i, j, b, hjoins, hij, hbackward, i', j', f, hjoins', hij', hforward,
      hsum⟩ := h
    -- Either one citation has both depths, or each of the two of a mutual link has one.
    rcases hjoins with heq | heq <;>
      rcases hjoins' with heq' | heq' <;>
      obtain ⟨rfl, rfl⟩ := Prod.mk.inj heq <;> obtain ⟨rfl, rfl⟩ := Prod.mk.inj heq'
    · obtain ⟨w, hlength, hcrosses⟩ :=
        CitationWalk.exists_crosses_iff.mpr ⟨hij, b, f, hbackward, hforward, hsum⟩
      exact ⟨w, hlength, Or.inl hcrosses⟩
    · obtain ⟨w, hlength, hcrosses⟩ :=
        exists_crosses_of_mutual hij' hij hbackward hforward hsum hcited
      exact ⟨w, hlength, hcrosses.symm⟩
    · exact exists_crosses_of_mutual hij' hij hbackward hforward hsum hciting
    · obtain ⟨w, hlength, hcrosses⟩ :=
        CitationWalk.exists_crosses_iff.mpr ⟨hij, b, f, hbackward, hforward, hsum⟩
      exact ⟨w, hlength, Or.inr hcrosses⟩
  · intro h
    obtain ⟨w, hlength, hcrosses⟩ := h
    have hvisits : w.Visits l.citing ∧ w.Visits l.cited := by
      rcases hcrosses with hcrosses | hcrosses
      · exact ⟨hcrosses.visits_citing, hcrosses.visits_cited⟩
      · exact ⟨hcrosses.visits_cited, hcrosses.visits_citing⟩
    refine ⟨Or.inr (Or.inr ⟨w, hlength, hvisits.1⟩), Or.inr (Or.inr ⟨w, hlength, hvisits.2⟩), ?_⟩
    have hcrossed : ∃ i j, l.Joins i j ∧ w.Crosses i j := by
      rcases hcrosses with hcrosses | hcrosses
      · exact ⟨_, _, Or.inl rfl, hcrosses⟩
      · exact ⟨_, _, Or.inr rfl, hcrosses⟩
    obtain ⟨i, j, hjoins, hij⟩ := hcrossed
    obtain ⟨hcites, b, f, hbackward, hforward, hsum⟩ :=
      CitationWalk.exists_crosses_iff.mp ⟨w, hlength, hij⟩
    exact ⟨i, j, b, hjoins, hcites, hbackward, i, j, f, hjoins, hcites, hforward, hsum⟩

end Drawn

end Network

end Precedent
