import Mathlib.Data.Nat.Sqrt
import Mathlib.Order.Bounds.Basic
import Mathlib.Tactic.Linarith
import Precedent.Chart.Spread

/-!
# Precedent.Proofs.Chart.Spread

**Every opinion between the first and the last has a row of the pattern.** The pattern is chosen by
the length of the turn and has a row for each step of it, whether it stands in the table or counts
up. All its rows are below the top row, so that is the row of the first and the last opinion alone.
-/

namespace Precedent

namespace Number

/-! ### Sides of squares -/

/-- The root that is found digit by digit is the whole part of the square root. -/
theorem squareRoot_eq_sqrt (n : Nat) : squareRoot n = Nat.sqrt n := by
  by_cases hlt : n < 2
  · rw [squareRoot, if_pos hlt]
    obtain rfl | rfl : n = 0 ∨ n = 1 := by omega
    · exact Nat.sqrt_zero.symm
    · exact Nat.sqrt_one.symm
  · have hroot := squareRoot_eq_sqrt (n / 4)
    have hlow : squareRoot (n / 4) * squareRoot (n / 4) ≤ n / 4 := hroot ▸ Nat.sqrt_le (n / 4)
    have hhigh : n / 4 < (squareRoot (n / 4) + 1) * (squareRoot (n / 4) + 1) :=
      hroot ▸ Nat.lt_succ_sqrt (n / 4)
    have hquarter : 4 * (n / 4) ≤ n ∧ n < 4 * (n / 4) + 4 := by omega
    rw [squareRoot, if_neg hlt]
    dsimp only
    split
    case isTrue hle => exact Nat.eq_sqrt.mpr ⟨hle, by linarith⟩
    case isFalse hgt => exact Nat.eq_sqrt.mpr ⟨by linarith, Nat.lt_of_not_le hgt⟩
termination_by n
decreasing_by omega

/-- A side is long enough if its square has room. -/
theorem squareSide_le_iff {n side : Nat} : squareSide n ≤ side ↔ n ≤ side * side := by
  rw [squareSide, squareRoot_eq_sqrt]
  split
  case isTrue hsquare => rw [← Nat.mul_self_le_mul_self_iff, hsquare]
  case isFalse hne =>
    rw [Nat.succ_le_iff, Nat.sqrt_lt, Nat.lt_iff_le_and_ne, and_iff_left_iff_imp]
    rintro - rfl
    exact hne (by rw [Nat.sqrt_eq])

end Number

/-! ### Turns and patterns -/

/-- A pattern of the table has a row for each step of its turn. -/
theorem fits_of_mem_rowPatterns {i : Nat} {rows : List Nat} (h : rowPatterns[i]? = some rows) :
    i + 1 ≤ rows.length ∧ ∀ r ∈ rows, 1 ≤ r := by
  have hall : ∀ i : Fin rowPatterns.length,
      i.val + 1 ≤ rowPatterns[i].length ∧ ∀ r ∈ rowPatterns[i], 1 ≤ r := by decide
  obtain ⟨hi, rfl⟩ := List.getElem?_eq_some_iff.mp h
  exact hall ⟨i, hi⟩

namespace Spread

theorem lt_topRow_of_mem_rows {s : Spread} {r : Nat} (h : r ∈ s.rows) : r < s.topRow := by
  rw [topRow, List.foldl_max]
  exact Nat.lt_succ_of_le (le_max_of_le_right (List.le_max?_getD_of_mem h))

section

variable {count position : Nat} (hcount : count < 2 ^ 32)
include hcount

theorem turn_ofCount : (ofCount count).turn = Number.squareSide count :=
  if_pos (hcount.trans (by decide))

/-- The turn is the side of the smallest square that has room for all. -/
theorem isLeast_turn : IsLeast {side | count ≤ side * side} (ofCount count).turn := by
  rw [turn_ofCount hcount]
  exact ⟨Number.squareSide_le_iff.mp (Nat.le_refl _), fun _ => Number.squareSide_le_iff.mpr⟩

/-- A pattern stands in the table or counts up; 32-bit words are enough for its rows. -/
theorem rows_ofCount :
    (∃ i, (ofCount count).turn = i + 1 ∧ rowPatterns[i]? = some (ofCount count).rows) ∨
      (ofCount count).rows = List.range' 1 ((ofCount count).turn + 1) := by
  have hturn : turnOf count ≤ 2 ^ 16 := (isLeast_turn hcount).2 hcount.le
  have hword : (turnOf count + 1) % UInt32.size = turnOf count + 1 :=
    Nat.mod_eq_of_lt (Nat.lt_of_le_of_lt (Nat.succ_le_succ hturn) (by decide))
  rw [ofCount, hword]
  cases turnOf count with
  | zero => exact Or.inr rfl
  | succ i =>
      cases hpattern : rowPatterns[i]? with
      | none => exact Or.inr (by simp [hpattern])
      | some rows => exact Or.inl ⟨i, rfl, by simp [hpattern]⟩

theorem turn_le_length_rows : (ofCount count).turn ≤ (ofCount count).rows.length := by
  rcases rows_ofCount hcount with ⟨i, hturn, hrows⟩ | hrows
  · rw [hturn]
    exact (fits_of_mem_rowPatterns hrows).1
  · rw [hrows, List.length_range']
    exact Nat.le_succ _

theorem one_le_of_mem_rows {r : Nat} (h : r ∈ (ofCount count).rows) : 1 ≤ r := by
  rcases rows_ofCount hcount with ⟨i, -, hrows⟩ | hrows
  · exact (fits_of_mem_rowPatterns hrows).2 r h
  · rw [hrows] at h
    exact (List.mem_range'_1.mp h).1

/-! ### Rows -/

/-- The row of an opinion between the first and the last is found in the pattern. -/
theorem getElem?_rows (hfirst : 1 < position) (hlast : position < count) :
    (ofCount count).rows[(position - 2) % (ofCount count).turn]? =
      some ((ofCount count).row position count) := by
  have hpos : 0 < (ofCount count).turn := by
    refine Nat.pos_of_ne_zero fun hzero => ?_
    have hroom : count ≤ _ := (isLeast_turn hcount).1
    rw [hzero] at hroom
    omega
  have hlt := (Nat.mod_lt (position - 2) hpos).trans_le (turn_le_length_rows hcount)
  have hbetween : ¬ (position ≤ 1 || count ≤ position || (ofCount count).turn = 0) = true := by
    simp only [Bool.or_eq_true, decide_eq_true_eq]
    omega
  rw [row, if_neg hbetween, List.getElem?_eq_getElem hlt, Option.getD_some]

/-- The first and the last opinion alone are in the top row. -/
theorem row_eq_topRow_iff : (ofCount count).row position count = (ofCount count).topRow ↔
    position ≤ 1 ∨ count ≤ position := by
  constructor
  · intro h
    by_contra hbetween
    rw [not_or, Nat.not_le, Nat.not_le] at hbetween
    have hmem := List.mem_of_getElem? (getElem?_rows hcount hbetween.1 hbetween.2)
    exact (lt_topRow_of_mem_rows hmem).ne h
  · intro h
    rw [row, if_pos (by rcases h with h | h <;> simp [h])]

theorem row_bounds : 1 ≤ (ofCount count).row position count ∧
    (ofCount count).row position count ≤ (ofCount count).topRow := by
  by_cases htop : position ≤ 1 ∨ count ≤ position
  · rw [(row_eq_topRow_iff hcount).mpr htop]
    exact ⟨Nat.le_add_left .., Nat.le_refl _⟩
  · rw [not_or, Nat.not_le, Nat.not_le] at htop
    have hmem := List.mem_of_getElem? (getElem?_rows hcount htop.1 htop.2)
    exact ⟨one_le_of_mem_rows hcount hmem, (lt_topRow_of_mem_rows hmem).le⟩

end

end Spread

end Precedent
