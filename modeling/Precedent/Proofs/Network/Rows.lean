import Mathlib.Algebra.BigOperators.Group.List.Lemmas
import Mathlib.Algebra.GroupWithZero.Nat
import Precedent.Network.Adjacency

/-!
# Precedent.Proofs.Network.Rows

**Rows that are stored are read back.** `ofRows` is the flat form of a list of rows. What `push`
and `close` write is always of that form (`writing`), `row` reads each row of it back, and a lookup
finds the entries of a row whose neighbours increase.
-/

namespace Precedent

/-! ### Running totals -/

@[simp] theorem length_runningTotals (total : Nat) (ns : List Nat) :
    (runningTotals total ns).length = ns.length + 1 := by
  induction ns generalizing total with
  | nil => rfl
  | cons n rest ih => simp only [runningTotals, List.length_cons, ih]

theorem getElem?_runningTotals (total : Nat) {ns : List Nat} {i : Nat} (h : i ≤ ns.length) :
    (runningTotals total ns)[i]? = some (total + (ns.take i).sum) := by
  induction ns generalizing total i with
  | nil =>
      obtain rfl : i = 0 := by simpa using h
      rfl
  | cons n rest ih =>
      cases i with
      | zero => rfl
      | succ i =>
          rw [runningTotals, List.getElem?_cons_succ, ih _ (by simpa using h), List.take_succ_cons,
            List.sum_cons, Nat.add_assoc]

theorem runningTotals_append (total : Nat) (ns : List Nat) (n : Nat) :
    runningTotals total (ns ++ [n]) = runningTotals total ns ++ [total + ns.sum + n] := by
  induction ns generalizing total with
  | nil => rfl
  | cons m rest ih =>
      rw [List.cons_append, runningTotals, ih, runningTotals, List.cons_append, List.sum_cons,
        Nat.add_assoc total]

theorem le_of_mem_runningTotals {total n : Nat} {ns : List Nat}
    (h : n ∈ runningTotals total ns) : total ≤ n := by
  induction ns generalizing total with
  | nil => exact Nat.le_of_eq (List.mem_singleton.mp h).symm
  | cons m rest ih =>
      rcases List.mem_cons.mp h with rfl | h
      · exact Nat.le_refl _
      · exact (Nat.le_add_right total m).trans (ih h)

/-- Running totals never decrease. -/
theorem pairwise_runningTotals (total : Nat) (ns : List Nat) :
    (runningTotals total ns).Pairwise (· ≤ ·) := by
  induction ns generalizing total with
  | nil => exact List.pairwise_singleton _ _
  | cons n rest ih =>
      refine List.pairwise_cons.mpr ⟨fun m hm => ?_, ih (total + n)⟩
      exact (Nat.le_add_right total n).trans (le_of_mem_runningTotals hm)

/-! ### Where a row starts -/

/-- The number of entries in front of a row. -/
def rowStart (rows : List (List (Nat × Nat))) (i : Nat) : Nat := ((rows.map List.length).take i).sum

variable {rows : List (List (Nat × Nat))} {i k : Nat}

theorem rowStart_succ (h : i < rows.length) :
    rowStart rows (i + 1) = rowStart rows i + rows[i].length := by
  rw [rowStart, List.sum_take_succ _ _ (by simpa using h), List.getElem_map, rowStart]

theorem rowStart_of_le (h : rows.length ≤ i) : rowStart rows i = rows.flatten.length := by
  rw [rowStart, List.take_of_length_le (by simpa using h), List.length_flatten]

theorem rowStart_mono {j : Nat} (h : i ≤ j) : rowStart rows i ≤ rowStart rows j := by
  induction h with
  | refl => exact Nat.le_refl _
  | @step j _ ih =>
      by_cases hj : j < rows.length
      · rw [rowStart_succ hj]
        exact Nat.le_add_right_of_le ih
      · calc rowStart rows i ≤ rowStart rows j := ih
          _ = rows.flatten.length := rowStart_of_le (by omega)
          _ = rowStart rows (j + 1) := (rowStart_of_le (by omega)).symm

/-- Between the start of a row and that of the next one stands the row. -/
theorem slice_flatten (h : i < rows.length) :
    (rows.flatten.take (rowStart rows (i + 1))).drop (rowStart rows i) = rows[i] :=
  List.drop_take_succ_flatten_eq_getElem rows i h

theorem getElem?_flatten (h : i < rows.length) (hk : k < rows[i].length) :
    rows.flatten[rowStart rows i + k]? = some rows[i][k] := by
  have hlt : rowStart rows i + k < rowStart rows (i + 1) := by rw [rowStart_succ h]; omega
  calc rows.flatten[rowStart rows i + k]?
      = ((rows.flatten.take (rowStart rows (i + 1))).drop (rowStart rows i))[k]? := by
        rw [List.getElem?_drop, List.getElem?_take_of_lt hlt]
    _ = some rows[i][k] := by rw [slice_flatten h, List.getElem?_eq_getElem hk]

/-- Entries of different rows stand at different places. -/
theorem rowStart_add_lt {j m : Nat} (hi : i < rows.length) (hk : k < rows[i].length)
    (hij : i < j) : rowStart rows i + k < rowStart rows j + m := by
  have hnext : rowStart rows (i + 1) ≤ rowStart rows j := rowStart_mono hij
  rw [rowStart_succ hi] at hnext
  omega

/-- Every place of the flat list belongs to a row. -/
theorem exists_rowStart_add {p : Nat} (h : p < rows.flatten.length) :
    ∃ i, ∃ hi : i < rows.length, ∃ k, k < rows[i].length ∧ p = rowStart rows i + k := by
  induction rows generalizing p with
  | nil => simp at h
  | cons r rest ih =>
      -- The place is in the first row, or it is past it and so in one of the others.
      by_cases hp : p < r.length
      · exact ⟨0, by simp, p, by simpa using hp, by simp [rowStart]⟩
      · rw [List.flatten_cons, List.length_append] at h
        obtain ⟨i, hi, k, hk, hpk⟩ := ih (p := p - r.length) (by omega)
        refine ⟨i + 1, by simpa using hi, k, by simpa using hk, ?_⟩
        rw [rowStart, List.map_cons, List.take_succ_cons, List.sum_cons, ← rowStart]
        omega

namespace Adjacency

/-! ### The flat form of rows -/

/-- Rows in flat form. -/
def ofRows (rows : List (List (Nat × Nat))) : Adjacency where
  offsets := (runningTotals 0 (rows.map List.length)).toArray
  targets := (rows.flatten.map Prod.fst).toArray
  slots := (rows.flatten.map Prod.snd).toArray

/-- Rows in flat form, and the entries so far of one more row. -/
def writing (rows : List (List (Nat × Nat))) (last : List (Nat × Nat)) : Adjacency where
  offsets := (runningTotals 0 (rows.map List.length)).toArray
  targets := ((rows.flatten ++ last).map Prod.fst).toArray
  slots := ((rows.flatten ++ last).map Prod.snd).toArray

theorem writing_nil (rows : List (List (Nat × Nat))) : writing rows [] = ofRows rows := by
  simp only [writing, ofRows, List.append_nil]

theorem push_writing (rows : List (List (Nat × Nat))) (last : List (Nat × Nat))
    (target slot : Nat) :
    (writing rows last).push target slot = writing rows (last ++ [(target, slot)]) := by
  simp [push, writing]

theorem close_writing (rows : List (List (Nat × Nat))) (last : List (Nat × Nat)) :
    (writing rows last).close = writing (rows ++ [last]) [] := by
  simp [close, writing, runningTotals_append, List.length_flatten, Function.comp_def]

/-! ### Reading back -/

theorem mem_neighbours {a : Adjacency} {i j : Nat} :
    j ∈ a.neighbours i ↔ ∃ slot, (j, slot) ∈ a.row i := by
  rw [neighbours, List.mem_map]
  constructor
  · intro hmem
    obtain ⟨entry, hentry, rfl⟩ := hmem
    exact ⟨entry.2, hentry⟩
  · intro hmem
    obtain ⟨slot, hentry⟩ := hmem
    exact ⟨(j, slot), hentry, rfl⟩

theorem offset_ofRows (h : i ≤ rows.length) : (ofRows rows).offset i = rowStart rows i := by
  rw [offset, ofRows, List.getElem?_toArray, getElem?_runningTotals 0 (by simpa using h),
    Option.getD_some, Nat.zero_add, rowStart]

/-- There is nothing past the last offset. -/
theorem offset_ofRows_of_lt (h : rows.length < i) : (ofRows rows).offset i = 0 := by
  rw [offset, ofRows, List.getElem?_toArray, List.getElem?_eq_none (by simp; omega),
    Option.getD_none]

/-- One field of a row is the slice of that field of all rows. -/
theorem toList_extract_flatten (field : Nat × Nat → Nat) (h : i < rows.length) :
    ((rows.flatten.map field).toArray.extract (rowStart rows i) (rowStart rows (i + 1))).toList =
      rows[i].map field := by
  rw [← slice_flatten h, List.map_drop, List.map_take, Array.toList_extract,
    List.extract_eq_take_drop, ← List.drop_take]

theorem row_ofRows (h : i < rows.length) : (ofRows rows).row i = rows[i] := by
  rw [row, offset_ofRows (Nat.le_of_lt h), offset_ofRows h]
  simp only [ofRows, toList_extract_flatten _ h, List.zip_map']
  simp

theorem row_ofRows_of_le (h : rows.length ≤ i) : (ofRows rows).row i = [] := by
  rw [row, offset_ofRows_of_lt (Nat.lt_succ_of_le h)]
  simp

theorem size_ofRows : (ofRows rows).size = rows.flatten.length := by
  rw [size, ofRows, List.size_toArray, List.length_map]

theorem getElem?_targets_ofRows (h : i < rows.length) (hk : k < rows[i].length) :
    (ofRows rows).targets[rowStart rows i + k]? = some rows[i][k].1 := by
  rw [ofRows, List.getElem?_toArray, List.getElem?_map, getElem?_flatten h hk, Option.map_some]

theorem getElem?_slots_ofRows (h : i < rows.length) (hk : k < rows[i].length) :
    (ofRows rows).slots[rowStart rows i + k]? = some rows[i][k].2 := by
  rw [ofRows, List.getElem?_toArray, List.getElem?_map, getElem?_flatten h hk, Option.map_some]

/-! ### Looking up -/

/-- A lookup in a row whose neighbours increase finds the place of an entry. -/
theorem place?_ofRows_eq_some_iff (h : i < rows.length)
    (hinc : (rows[i].map Prod.fst).Pairwise (· < ·)) {target p : Nat} :
    (ofRows rows).place? i target = some p ↔
      ∃ k, ∃ hk : k < rows[i].length, p = rowStart rows i + k ∧ rows[i][k].1 = target := by
  have hvalue : ∀ k, ∀ hk : k < rows[i].length,
      (ofRows rows).targets[rowStart rows i + k]?.getD 0 = rows[i][k].1 := fun k hk => by
    rw [getElem?_targets_ofRows h hk, Option.getD_some]
  rw [place?, offset_ofRows (Nat.le_of_lt h), offset_ofRows h, rowStart_succ h]
  constructor
  · intro hp
    obtain ⟨hlow, hhigh, htarget⟩ := value_of_bisect hp
    obtain ⟨k, rfl⟩ := Nat.exists_eq_add_of_le hlow
    have hk : k < rows[i].length := by omega
    exact ⟨k, hk, rfl, (hvalue k hk).symm.trans htarget⟩
  · intro hplace
    obtain ⟨k, hk, rfl, htarget⟩ := hplace
    refine bisect_of_value ?_ (Nat.le_add_right _ _) (by omega) ((hvalue k hk).trans htarget)
    -- The search looks at places of this row only, and there the neighbours increase.
    intro p q hp hpq hq
    obtain ⟨m, rfl⟩ := Nat.exists_eq_add_of_le hp
    obtain ⟨n, rfl⟩ := Nat.exists_eq_add_of_le (hp.trans hpq.le)
    rw [hvalue m (by omega), hvalue n (by omega)]
    have hlt := List.pairwise_iff_getElem.mp hinc m n (by simp; omega) (by simp; omega) (by omega)
    simpa only [List.getElem_map] using hlt

/-- A lookup in a row whose neighbours increase finds the slot of an entry. -/
theorem slot?_ofRows_eq_some_iff (h : i < rows.length)
    (hinc : (rows[i].map Prod.fst).Pairwise (· < ·)) {target slot : Nat} :
    (ofRows rows).slot? i target = some slot ↔ (target, slot) ∈ rows[i] := by
  rw [slot?, Option.bind_eq_some_iff, List.mem_iff_getElem]
  constructor
  · intro hfound
    obtain ⟨p, hp, hslot⟩ := hfound
    obtain ⟨k, hk, rfl, rfl⟩ := (place?_ofRows_eq_some_iff h hinc).mp hp
    rw [getElem?_slots_ofRows h hk, Option.some.injEq] at hslot
    exact ⟨k, hk, Prod.ext rfl hslot⟩
  · intro hmem
    obtain ⟨k, hk, hentry⟩ := hmem
    refine ⟨rowStart rows i + k, ?_, ?_⟩
    · exact (place?_ofRows_eq_some_iff h hinc).mpr ⟨k, hk, rfl, by rw [hentry]⟩
    · rw [getElem?_slots_ofRows h hk, hentry]

/-- A lookup in a row whose neighbours increase finds every neighbour. -/
theorem joins_ofRows_iff (h : i < rows.length) (hinc : (rows[i].map Prod.fst).Pairwise (· < ·))
    {target : Nat} : (ofRows rows).joins i target = true ↔ target ∈ rows[i].map Prod.fst := by
  rw [joins, Option.isSome_iff_exists, List.mem_map]
  constructor
  · intro hfound
    obtain ⟨p, hp⟩ := hfound
    obtain ⟨k, hk, -, htarget⟩ := (place?_ofRows_eq_some_iff h hinc).mp hp
    exact ⟨rows[i][k], List.getElem_mem hk, htarget⟩
  · intro hmem
    obtain ⟨entry, hentry, rfl⟩ := hmem
    obtain ⟨k, hk, rfl⟩ := List.getElem_of_mem hentry
    exact ⟨_, (place?_ofRows_eq_some_iff h hinc).mpr ⟨k, hk, rfl, rfl⟩⟩

theorem place?_ofRows_of_le (h : rows.length ≤ i) (target : Nat) :
    (ofRows rows).place? i target = none := by
  rw [place?, offset_ofRows_of_lt (Nat.lt_succ_of_le h), bisect, if_neg (Nat.not_lt_zero _)]

theorem slot?_ofRows_of_le (h : rows.length ≤ i) (target : Nat) :
    (ofRows rows).slot? i target = none := by
  rw [slot?, place?_ofRows_of_le h, Option.bind_none]

theorem joins_ofRows_of_le (h : rows.length ≤ i) (target : Nat) :
    (ofRows rows).joins i target = false := by
  rw [joins, place?_ofRows_of_le h, Option.isSome_none]

end Adjacency

end Precedent
