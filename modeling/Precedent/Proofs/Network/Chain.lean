/-!
# Precedent.Proofs.Network.Chain

**Chains of steps between indices.** A chain of a given length leads from one index to another by
steps of one relation. Chains grow at their end, as a sweep finds them; they can be joined, and
turned around together with the relation.
-/

namespace Precedent

/-- There is a chain from `i` that leads in `n` steps to `j`. -/
inductive Chain (step : Nat → Nat → Prop) (i : Nat) : (n j : Nat) → Prop where
  /-- No step is taken. -/
  | nil : Chain step i 0 i
  /-- One more step is taken at the end. -/
  | snoc {n j k : Nat} : Chain step i n j → step j k → Chain step i (n + 1) k

namespace Chain

variable {step step' : Nat → Nat → Prop} {m n i j k : Nat}

theorem trans (h : Chain step i m j) (h' : Chain step j n k) : Chain step i (m + n) k := by
  induction h' with
  | nil => exact h
  | snoc _ hstep ih => exact ih.snoc hstep

theorem cons (hstep : step i j) (h : Chain step j n k) : Chain step i (n + 1) k := by
  have hfirst : Chain step i 1 j := Chain.nil.snoc hstep
  rw [Nat.add_comm]
  exact hfirst.trans h

/-- A chain, walked the other way. -/
theorem reverse (h : Chain step i n j) (hstep : ∀ {i j}, step i j → step' j i) :
    Chain step' j n i := by
  induction h with
  | nil => exact .nil
  | snoc _ hlast ih => exact ih.cons (hstep hlast)

/-- Chains of a relation from one end are chains of its converse from the other. -/
theorem swap_iff : Chain (fun i j => step j i) j n i ↔ Chain step i n j :=
  ⟨fun h => h.reverse id, fun h => h.reverse id⟩

/-- A chain of one relation is a chain of every relation that allows its steps. -/
theorem mono (h : Chain step i n j) (hstep : ∀ {i j}, step i j → step' i j) :
    Chain step' i n j := by
  induction h with
  | nil => exact .nil
  | snoc _ hlast ih => exact ih.snoc (hstep hlast)

theorem eq_of_zero (h : Chain step i 0 j) : i = j := by
  cases h
  rfl

end Chain

end Precedent
