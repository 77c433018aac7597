import Mathlib.Data.Nat.Find
import Mathlib.Order.Bounds.Basic
import Precedent.Network.Sweep

/-!
# Precedent.Proofs.Network.Depths

**Tables of depths.** What is known of an index after a depth has been noted or lowered there. A
table that starts empty and in which depths are only ever lowered holds, for each index, the least
of the depths that were given for it (`Least`).
-/

namespace Precedent

/-- Two sets of numbers have the same least element if one of them is part of the other, and none of
the other is below all of it. -/
theorem isLeast_congr_of_dominated {S T : Set Nat} {c : Nat} (hsub : ∀ n ∈ S, n ∈ T)
    (hdom : ∀ n ∈ T, ∃ m ∈ S, m ≤ n) : IsLeast S c ↔ IsLeast T c := by
  constructor
  · intro hc
    refine ⟨hsub c hc.1, fun n hn => ?_⟩
    obtain ⟨m, hm, hle⟩ := hdom n hn
    exact (hc.2 hm).trans hle
  · intro hc
    obtain ⟨m, hm, hle⟩ := hdom c hc.1
    obtain rfl : m = c := Nat.le_antisymm hle (hc.2 (hsub m hm))
    exact ⟨hm, fun n hn => hc.2 (hsub n hn)⟩

namespace Depths

variable {t : Depths} {i j depth c : Nat}

/-! ### Tables of depths -/

theorem lt_size_of_at? (h : t.at? i = some depth) : i < t.size := by
  by_contra hle
  simp [at?, Array.getElem?_eq_none (Nat.le_of_not_lt hle)] at h

theorem at?_unknown (size i : Nat) : (unknown size).at? i = none := by
  unfold unknown at?
  rw [Array.getElem?_replicate]
  split <;> rfl

theorem size_unknown (size : Nat) : (unknown size).size = size := Array.size_replicate

theorem size_note : (t.note i depth).size = t.size := Array.size_setIfInBounds

theorem at?_note_self (h : i < t.size) : (t.note i depth).at? i = some depth := by
  rw [note, at?, Array.getElem?_setIfInBounds_self_of_lt h]
  rfl

theorem at?_note_ne (h : i ≠ j) : (t.note i depth).at? j = t.at? j := by
  rw [note, at?, Array.getElem?_setIfInBounds_ne h, at?]

theorem size_lower : (t.lower i depth).size = t.size := by
  unfold lower
  split
  · exact size_note
  · rfl

theorem at?_lower_ne (h : i ≠ j) : (t.lower i depth).at? j = t.at? j := by
  unfold lower
  split
  · exact at?_note_ne h
  · rfl

theorem at?_lower_of_none (hi : i < t.size) (h : t.at? i = none) :
    (t.lower i depth).at? i = some depth := by
  rw [lower, if_pos (by rw [improves, h])]
  exact at?_note_self hi

theorem at?_lower_of_some (h : t.at? i = some c) :
    (t.lower i depth).at? i = some (min depth c) := by
  have hi := lt_size_of_at? h
  unfold lower improves
  rw [h]
  by_cases hlt : depth < c
  · rw [if_pos (decide_eq_true hlt), at?_note_self hi, Nat.min_eq_left (Nat.le_of_lt hlt)]
  · rw [if_neg (by simpa using hlt), h, Nat.min_eq_right (Nat.le_of_not_lt hlt)]

/-! ### Tables of least depths -/

/-- A table holds the least of the depths that each index has. -/
def Least (t : Depths) (depths : Nat → Set Nat) : Prop :=
  ∀ i c, t.at? i = some c ↔ IsLeast (depths i) c

namespace Least

variable {depths : Nat → Set Nat}

theorem unknown (size : Nat) : (unknown size).Least fun _ => ∅ := by
  intro i c
  rw [at?_unknown]
  exact iff_of_false (by simp) fun h => h.1

/-- Something is known of an index that has a depth, and it is not above the depth. -/
theorem exists_le (h : t.Least depths) {n : Nat} (hn : n ∈ depths i) :
    ∃ c, t.at? i = some c ∧ c ≤ n := by
  classical
  have hex : ∃ n, n ∈ depths i := ⟨n, hn⟩
  exact ⟨_, (h i _).mpr ⟨Nat.find_spec hex, fun _ => Nat.find_min' hex⟩, Nat.find_min' hex hn⟩

/-- Nothing is known of an index without depths. -/
theorem eq_none_iff (h : t.Least depths) : t.at? i = none ↔ depths i = ∅ := by
  rw [Option.eq_none_iff_forall_ne_some, Set.eq_empty_iff_forall_notMem]
  constructor
  · intro hnone n hn
    obtain ⟨c, hc, -⟩ := h.exists_le hn
    exact hnone c hc
  · intro hempty c hc
    exact hempty c ((h i c).mp hc).1

theorem congr {depths' : Nat → Set Nat} (h : t.Least depths) (heq : ∀ i, depths i = depths' i) :
    t.Least depths' := by
  intro i c
  rw [← heq i]
  exact h i c

/-- What is known of an index when one more depth is noted there. -/
theorem exists_at?_lower (h : t.Least depths) (hi : i < t.size) (depth : Nat) :
    ∃ c, (t.lower i depth).at? i = some c ∧ IsLeast (insert depth (depths i)) c := by
  cases hat : t.at? i with
  | none =>
      refine ⟨depth, at?_lower_of_none hi hat, ?_⟩
      rw [h.eq_none_iff.mp hat, insert_empty_eq]
      exact isLeast_singleton
  | some known => exact ⟨_, at?_lower_of_some hat, ((h i known).mp hat).insert depth⟩

/-- One more depth of an index. -/
theorem lower (h : t.Least depths) (hi : i < t.size) :
    (t.lower i depth).Least fun j => {n | (j = i ∧ n = depth) ∨ n ∈ depths j} := by
  intro j c
  by_cases hij : i = j
  · subst hij
    obtain ⟨known, hat, hleast⟩ := h.exists_at?_lower hi depth
    have hinsert : insert depth (depths i) = {n | (i = i ∧ n = depth) ∨ n ∈ depths i} := by
      ext n
      simp
    rw [hinsert] at hleast
    rw [hat, Option.some.injEq]
    exact ⟨fun heq => heq ▸ hleast, fun hc => hleast.unique hc⟩
  · rw [at?_lower_ne hij, h j c]
    simp [Ne.symm hij]

end Least

end Depths

end Precedent
