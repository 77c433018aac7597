/-!
# Precedent.Bisect

**Looking up a value in increasing order.** Between two bounds the values increase, so half of the
places are ruled out by one look at the middle one. Where the values do not increase, a place that
is found still holds the wanted value, but one that holds it may be missed.
-/

namespace Precedent

/-- A place from `low` on and before `high` that holds the wanted value. -/
def bisect (value : Nat → Nat) (wanted low high : Nat) : Option Nat :=
  if low < high then
    let middle := low + (high - low) / 2
    if value middle = wanted then some middle
    else if value middle < wanted then bisect value wanted (middle + 1) high
    else bisect value wanted low middle
  else none
termination_by high - low

variable {value : Nat → Nat} {wanted low high place : Nat}

/-- A place that is found lies between the bounds and holds the wanted value. -/
theorem value_of_bisect (h : bisect value wanted low high = some place) :
    low ≤ place ∧ place < high ∧ value place = wanted := by
  fun_induction bisect value wanted low high with
  | case1 low high hlt middle hvalue =>
      obtain rfl : middle = place := Option.some.inj h
      exact ⟨by omega, by omega, hvalue⟩
  | case2 low high hlt middle hne hless ih =>
      obtain ⟨hlow, hhigh, hvalue⟩ := ih h
      exact ⟨by omega, hhigh, hvalue⟩
  | case3 low high hlt middle hne hless ih =>
      obtain ⟨hlow, hhigh, hvalue⟩ := ih h
      exact ⟨hlow, by omega, hvalue⟩
  | case4 => simp at h

/-- Among increasing values every place that holds the wanted value is found. -/
theorem bisect_of_value (hinc : ∀ p q, low ≤ p → p < q → q < high → value p < value q)
    (hlow : low ≤ place) (hhigh : place < high) (hvalue : value place = wanted) :
    bisect value wanted low high = some place := by
  fun_induction bisect value wanted low high with
  | case1 low high hlt middle hmiddle =>
      -- Two different places would hold different values.
      rcases Nat.lt_trichotomy middle place with hmp | hmp | hmp
      · have := hinc middle place (by omega) hmp hhigh
        omega
      · exact congrArg some hmp
      · have := hinc place middle hlow hmp (by omega)
        omega
  | case2 low high hlt middle hne hless ih =>
      have hright : middle < place := by
        rcases Nat.lt_trichotomy middle place with hmp | rfl | hmp
        · exact hmp
        · exact absurd hvalue hne
        · have := hinc place middle hlow hmp (by omega)
          omega
      exact ih (fun p q hp => hinc p q (by omega)) hright hhigh
  | case3 low high hlt middle hne hless ih =>
      have hleft : place < middle := by
        rcases Nat.lt_trichotomy middle place with hmp | rfl | hmp
        · have := hinc middle place (by omega) hmp hhigh
          omega
        · exact absurd hvalue hne
        · exact hmp
      exact ih (fun p q hp hpq hq => hinc p q hp hpq (by omega)) hlow hleft
  | case4 low high hge => omega

end Precedent
