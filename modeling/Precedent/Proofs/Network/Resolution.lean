import Mathlib.Data.List.Sort
import Precedent.Proofs.Network.Citing
import Precedent.Proofs.Network.Docket

/-!
# Precedent.Proofs.Network.Resolution

**Resolving the citations of an opinion finds what it cites.** The identifiers that an opinion cites
are looked up one after the other, and what is found is put in order. For opinions that stand at
their places these are exactly the other opinions of the set whose identifiers the record names,
each of them once and in chronological order.
-/

namespace Precedent

/-! ### Opinions at their places -/

namespace WellPlaced

variable {opinions : List Opinion} {a b : Opinion} {i : Nat}

theorem getElem?_index (h : WellPlaced opinions) (ha : a ∈ opinions) :
    opinions[a.index]? = some a := by
  obtain ⟨i, hi⟩ := List.getElem?_of_mem ha
  rwa [h.index_eq hi]

theorem eq_of_id (h : WellPlaced opinions) (ha : a ∈ opinions) (hb : b ∈ opinions)
    (hid : a.id = b.id) : a = b :=
  List.inj_on_of_nodup_map h.nodup ha hb hid

/-- Opinions at different places have different identifiers. -/
theorem id_ne (h : WellPlaced opinions) {i j : Nat} (hi : opinions[i]? = some a)
    (hj : opinions[j]? = some b) (hne : i ≠ j) : b.id ≠ a.id := by
  intro hid
  obtain rfl := h.eq_of_id (List.mem_of_getElem? hj) (List.mem_of_getElem? hi) hid
  exact hne ((h.index_eq hi).symm.trans (h.index_eq hj))

theorem eq_of_index (h : WellPlaced opinions) (ha : a ∈ opinions) (hb : b ∈ opinions)
    (hindex : a.index = b.index) : a = b := by
  have hget := h.getElem?_index ha
  rw [hindex, h.getElem?_index hb] at hget
  exact (Option.some.inj hget).symm

/-- An identifier leads to the opinion that has it. -/
theorem find?_eq_some_iff (h : WellPlaced opinions) {id : OpinionId} :
    (opinions.find? fun o => o.id == id) = some a ↔ a ∈ opinions ∧ a.id = id := by
  constructor
  · intro hfind
    exact ⟨List.mem_of_find?_eq_some hfind, by simpa using List.find?_some hfind⟩
  · intro hboth
    obtain ⟨ha, rfl⟩ := hboth
    cases hfind : opinions.find? fun o => o.id == a.id with
    | none => exact absurd (List.find?_eq_none.mp hfind a ha) (by simp)
    | some b =>
        have hid : b.id = a.id := by simpa using List.find?_some hfind
        rw [h.eq_of_id (List.mem_of_find?_eq_some hfind) ha hid]

end WellPlaced

/-- Who cites whom among opinions that stand at their places. -/
def Citing.ofOpinions (opinions : List Opinion) : Citing where
  size := opinions.length
  cites i j :=
    i != j && opinions[i]?.any fun a => opinions[j]?.any fun b => a.record.cited.cites b.id
  ne h := by
    rw [Bool.and_eq_true, bne_iff_ne] at h
    exact h.1
  left_lt {i j} h := by
    rw [Bool.and_eq_true, Option.any_eq_true] at h
    obtain ⟨-, a, ha, -⟩ := h
    exact (List.getElem?_eq_some_iff.mp ha).1
  right_lt {i j} h := by
    rw [Bool.and_eq_true, Option.any_eq_true] at h
    obtain ⟨-, a, -, h⟩ := h
    rw [Option.any_eq_true] at h
    obtain ⟨b, hb, -⟩ := h
    exact (List.getElem?_eq_some_iff.mp hb).1

theorem Citing.ofOpinions_cites_iff {opinions : List Opinion} {i j : Nat} :
    (Citing.ofOpinions opinions).cites i j = true ↔ i ≠ j ∧ ∃ a b,
      opinions[i]? = some a ∧ opinions[j]? = some b ∧ b.id ∈ a.record.cited.ids := by
  simp [Citing.ofOpinions, Option.any_eq_true, Citations.cites]

theorem Citations.nodup_ids (c : Citations) : c.ids.Nodup := by
  refine List.pairwise_map.mpr (c.increasing.imp fun {a b} hlt heq => ?_)
  have hself : compare b.1 b.1 = .eq := Std.ReflCmp.compare_self
  rw [heq, hself] at hlt
  cases hlt

/-! ### Looking up and sorting -/

namespace Resolution

variable {opinions : List Opinion} {o b : Opinion}

/-- What looking up identifiers one after the other finds. -/
theorem cited_foldl (ids : List OpinionId) (r : Resolution) :
    (ids.foldl (resolve opinions o) r).cited =
      r.cited ++ (ids.filterMap fun id => opinions.find? fun b => b.id == id).filter
        fun b => b.index != o.index := by
  induction ids generalizing r with
  | nil => exact (List.append_nil _).symm
  | cons id rest ih =>
      rw [List.foldl_cons, ih, resolve]
      cases hfind : opinions.find? fun b => b.id == id with
      | none => simp [hfind]
      | some b =>
          by_cases hself : b.index = o.index
          · simp [hfind, hself]
          · simp [hfind, hself]

theorem cited_of : (of opinions o).cited =
    (o.record.cited.ids.filterMap fun id => opinions.find? fun b => b.id == id).filter
      fun b => b.index != o.index := by
  rw [of, cited_foldl]
  rfl

theorem mem_cited_of (h : WellPlaced opinions) :
    b ∈ (of opinions o).cited ↔
      b ∈ opinions ∧ b.id ∈ o.record.cited.ids ∧ b.index ≠ o.index := by
  rw [cited_of, List.mem_filter, List.mem_filterMap, bne_iff_ne]
  constructor
  · intro hmem
    obtain ⟨⟨id, hid, hfind⟩, hne⟩ := hmem
    obtain ⟨hb, rfl⟩ := h.find?_eq_some_iff.mp hfind
    exact ⟨hb, hid, hne⟩
  · intro hboth
    obtain ⟨hb, hid, hne⟩ := hboth
    exact ⟨⟨b.id, hid, h.find?_eq_some_iff.mpr ⟨hb, rfl⟩⟩, hne⟩

/-- No opinion is found twice, since no identifier is cited twice. -/
theorem nodup_index_cited_of (h : WellPlaced opinions) :
    ((of opinions o).cited.map Opinion.index).Nodup := by
  refine List.Nodup.map_on (fun a ha b hb hindex => ?_) ?_
  · exact h.eq_of_index ((mem_cited_of h).mp ha).1 ((mem_cited_of h).mp hb).1 hindex
  · rw [cited_of]
    refine List.Nodup.filter _ (o.record.cited.nodup_ids.filterMap fun id id' b hb hb' => ?_)
    exact (h.find?_eq_some_iff.mp hb).2.symm.trans (h.find?_eq_some_iff.mp hb').2

theorem eraseRepsBy_loop_eq {α : Type} {r : α → α → Bool} (a : α) (as acc : List α)
    (h : (a :: as).IsChain fun x y => r x y = false) :
    List.eraseRepsBy.loop r a as acc = acc.reverse ++ a :: as := by
  induction as generalizing a acc with
  | nil => simp [List.eraseRepsBy.loop]
  | cons a' as ih =>
      rw [List.isChain_cons_cons] at h
      rw [List.eraseRepsBy.loop, h.1]
      dsimp only
      rw [ih a' (a :: acc) h.2]
      simp

/-- There is nothing to erase where neighbours differ. -/
theorem eraseRepsBy_eq_self {α : Type} {r : α → α → Bool} {as : List α}
    (h : as.IsChain fun x y => r x y = false) : as.eraseRepsBy r = as := by
  cases as with
  | nil => rfl
  | cons a as => exact eraseRepsBy_loop_eq a as [] h

/-- Sorting by index gives strictly increasing indices where no index is there twice. -/
theorem pairwise_mergeSort_index {os : List Opinion} (h : (os.map Opinion.index).Nodup) :
    (os.mergeSort fun a b => a.index ≤ b.index).Pairwise fun a b => a.index < b.index := by
  have hle : (os.mergeSort fun a b => a.index ≤ b.index).Pairwise
      fun a b => decide (a.index ≤ b.index) = true :=
    List.pairwise_mergeSort (fun a b c hab hbc => by simp at *; omega)
      (fun a b => by simp; omega) os
  have hne : (os.mergeSort fun a b => a.index ≤ b.index).Pairwise
      fun a b => a.index ≠ b.index :=
    List.pairwise_map.mp (((List.mergeSort_perm _ _).map Opinion.index).nodup_iff.mpr h)
  refine (hle.and hne).imp fun {a b} hab => ?_
  exact Nat.lt_of_le_of_ne (of_decide_eq_true hab.1) hab.2

/-- There is nothing to erase: what has been found is only put in order. -/
theorem targets_of_eq_mergeSort (h : WellPlaced opinions) :
    (of opinions o).targets =
      (of opinions o).cited.mergeSort fun a b => a.index ≤ b.index := by
  refine eraseRepsBy_eq_self (List.Pairwise.isChain ?_)
  refine (pairwise_mergeSort_index (nodup_index_cited_of h)).imp fun {a b} hlt => ?_
  exact beq_false_of_ne (Nat.ne_of_lt hlt)

/-- The targets of an opinion are what it cites, in chronological order. -/
theorem targets_of (h : WellPlaced opinions) {i : Nat} (ho : opinions[i]? = some o) :
    (of opinions o).targets.map Opinion.index = (Citing.ofOpinions opinions).cited i := by
  rw [targets_of_eq_mergeSort h]
  -- Both lists increase, so it is enough that they have the same members.
  refine List.Pairwise.eq_of_mem_iff (List.pairwise_map.mpr
    (pairwise_mergeSort_index (nodup_index_cited_of h))) Citing.pairwise_cited fun j => ?_
  rw [List.mem_map, Citing.mem_cited, Citing.ofOpinions_cites_iff]
  obtain rfl := h.index_eq ho
  constructor
  · intro hmem
    obtain ⟨b, hb, rfl⟩ := hmem
    obtain ⟨hmem, hid, hne⟩ := (mem_cited_of h).mp (List.mem_mergeSort.mp hb)
    exact ⟨hne.symm, o, b, ho, h.getElem?_index hmem, hid⟩
  · intro hcited
    obtain ⟨hne, a, b, ha, hb, hid⟩ := hcited
    obtain rfl := Option.some.inj (ho.symm.trans ha)
    have hindex := h.index_eq hb
    refine ⟨b, List.mem_mergeSort.mpr ((mem_cited_of h).mpr ?_), hindex⟩
    exact ⟨List.mem_of_getElem? hb, hid, by rw [hindex]; exact hne.symm⟩

theorem mem_of_mem_targets (h : WellPlaced opinions) (hb : b ∈ (of opinions o).targets) :
    b ∈ opinions := by
  rw [targets_of_eq_mergeSort h, List.mem_mergeSort] at hb
  exact ((mem_cited_of h).mp hb).1

end Resolution

end Precedent
