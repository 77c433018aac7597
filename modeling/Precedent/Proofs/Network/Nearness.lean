import Precedent.Proofs.Network.Degrees

/-!
# Precedent.Proofs.Network.Nearness

**Degrees, compared by limits.** One degree is at most another one exactly if it falls under every
limit that the other falls under. What it takes to fall under a limit is said by distances and
depths, and is easier to have where these are smaller; so the degrees grow with them. And a limit is
past the farthest of some degrees exactly if it is past all of them, which is what makes it the
largest one and what makes one of them reach it.
-/

namespace Precedent

/-- One depth is at most another one. A depth that is not known is above all that are. -/
def AtMost (depth bound : Option Nat) : Prop := ∀ n, bound = some n → ∃ m, depth = some m ∧ m ≤ n

namespace AtMost

variable {depth bound : Option Nat}

theorem eq_some_zero (h : AtMost depth bound) (hzero : bound = some 0) : depth = some 0 := by
  obtain ⟨m, hm, hle⟩ := h 0 hzero
  rwa [Nat.le_zero.mp hle] at hm

/-- What is known with more depths is at most what is known with fewer. -/
theorem of_least {t t' : Depths} {depths depths' : Nat → Set Nat} (h : t.Least depths)
    (h' : t'.Least depths') {i i' : Nat} (hsub : depths i ⊆ depths' i') :
    AtMost (t'.at? i') (t.at? i) := by
  intro n hn
  exact h'.exists_le (hsub ((h i n).mp hn).1)

end AtMost

namespace Degree

variable {d d' : Degree} {ds : List Degree} {limit limit' index size : Nat}
  {forward backward forward' backward' : Option Nat}

/-! ### Limits -/

theorem isBelow_mono (hle : limit ≤ limit') (h : d.isBelow limit = true) :
    d.isBelow limit' = true :=
  isBelow_iff.mpr ((isBelow_iff.mp h).trans_le hle)

theorem isBelow_of_le (hle : d ≤ d') (h : d'.isBelow limit = true) : d.isBelow limit = true :=
  isBelow_iff.mpr (Nat.lt_of_le_of_lt hle (isBelow_iff.mp h))

theorem index_le (d : Degree) : d.index ≤ 9 := by cases d <;> decide

/-- Limits from one to nine tell all degrees apart. -/
theorem le_of_isBelow (h : ∀ limit, 1 ≤ limit → limit ≤ 9 → d'.isBelow limit = true →
    d.isBelow limit = true) : d ≤ d' := by
  by_contra hlt
  have hlt : d'.index < d.index := Nat.lt_of_not_le hlt
  have hbelow := h d.index (Nat.one_le_of_lt hlt) d.index_le (isBelow_iff.mpr hlt)
  exact Nat.lt_irrefl _ (isBelow_iff.mp hbelow)

/-! ### Distances and depths -/

/-- The degree of an opinion grows with its distances. -/
theorem ofNode_mono (hforward : AtMost forward' forward) (hbackward : AtMost backward' backward) :
    ofNode index size forward' backward' ≤ ofNode index size forward backward := by
  refine le_of_isBelow fun limit hpos hle h => ?_
  rw [isBelow_ofNode_iff hpos hle] at h ⊢
  rcases h with hearliest | hlatest | hzero | hzero | ⟨f, b, hf, hb, hsum⟩
  · exact Or.inl hearliest
  · exact Or.inr (Or.inl hlatest)
  · exact Or.inr (Or.inr (Or.inl (hforward.eq_some_zero hzero)))
  · exact Or.inr (Or.inr (Or.inr (Or.inl (hbackward.eq_some_zero hzero))))
  · obtain ⟨f', hf', hfle⟩ := hforward f hf
    obtain ⟨b', hb', hble⟩ := hbackward b hb
    exact Or.inr (Or.inr (Or.inr (Or.inr ⟨f', b', hf', hb', by omega⟩)))

/-- The degree of a link grows with its depths. -/
theorem ofLink_mono (hforward : AtMost forward' forward) (hbackward : AtMost backward' backward) :
    ofLink forward' backward' ≤ ofLink forward backward := by
  refine le_of_isBelow fun limit hpos hle h => ?_
  rw [isBelow_ofLink_iff hpos hle] at h ⊢
  obtain ⟨f, b, hf, hb, hsum⟩ := h
  obtain ⟨f', hf', hfle⟩ := hforward f hf
  obtain ⟨b', hb', hble⟩ := hbackward b hb
  exact ⟨f', b', hf', hb', by omega⟩

/-! ### The farthest degree -/

theorem isBelow_max_iff : (max d d').isBelow limit = true ↔
    d.isBelow limit = true ∧ d'.isBelow limit = true := by
  show (if d.index ≤ d'.index then d' else d).isBelow limit = true ↔ _
  split <;> simp only [isBelow_iff] <;> omega

/-- A limit is past the farthest degree if it is past all of them. -/
theorem isBelow_farthest_iff (hpos : 1 ≤ limit) :
    (farthest ds).isBelow limit = true ↔ ∀ d ∈ ds, d.isBelow limit = true := by
  have hfold : ∀ nearest : Degree, (ds.foldl max nearest).isBelow limit = true ↔
      nearest.isBelow limit = true ∧ ∀ d ∈ ds, d.isBelow limit = true := by
    induction ds with
    | nil => simp
    | cons d rest ih =>
        intro nearest
        rw [List.foldl_cons, ih, isBelow_max_iff, List.forall_mem_cons, and_assoc]
  rw [farthest, hfold, and_iff_right (isBelow_first hpos)]

end Degree

namespace Degrees

variable {d : Degrees} {i slot limit : Nat}

/-- A limit is past the farthest degree if it is past the degrees of all opinions and links. -/
theorem isBelow_max_iff (hpos : 1 ≤ limit) : d.max.isBelow limit = true ↔
    (∀ i < d.nodes.size, (d.node i).isBelow limit = true) ∧
      ∀ slot < d.links.size, (d.link slot).isBelow limit = true := by
  have hall : ∀ ds : Array Degree, (∀ e ∈ ds.toList, e.isBelow limit = true) ↔
      ∀ i < ds.size, (ds[i]?.getD .distant).isBelow limit = true := by
    intro ds
    simp only [Array.mem_toList_iff, Array.forall_mem_iff_forall_getElem]
    refine forall₂_congr fun i hi => ?_
    rw [Array.getElem?_eq_getElem hi, Option.getD_some]
  rw [max, Degree.isBelow_farthest_iff hpos, List.forall_mem_append, hall, hall]
  rfl

theorem node_le_max (h : i < d.nodes.size) : d.node i ≤ d.max :=
  Degree.le_of_isBelow fun _ hpos _ hbelow => ((isBelow_max_iff hpos).mp hbelow).1 i h

theorem link_le_max (h : slot < d.links.size) : d.link slot ≤ d.max :=
  Degree.le_of_isBelow fun _ hpos _ hbelow => ((isBelow_max_iff hpos).mp hbelow).2 slot h

end Degrees

end Precedent
