import Mathlib.Data.List.Dedup
import Mathlib.Data.List.DropRight
import Precedent.Lookup.Recency

/-!
# Precedent.Proofs.Lookup.History

**What happens to a store, as a list of moments.** A moment is a step together with the store that
it is done to, so it can be said whether a look-up hits and what is inserted. From the moments of a
run follows all that a store has to know: which keys are used, which values are inserted, how many
look-ups there are. `lastUsed n` lists the `n` keys with the latest last use.
-/

namespace Precedent

/-- A step in the use of a store. -/
inductive StoreStep (κ υ ε : Type) where
  | insert (k : κ) (v : υ)
  | get (k : κ)
  | getOrInsert (k : κ) (compute : Unit → Except ε υ)
  | clear

/-- A step and the store that it is done to. -/
structure Moment (κ υ ε : Type) where
  store : RecencyStore κ υ
  step : StoreStep κ υ ε

variable {κ υ ε : Type} [DecidableEq κ]

namespace RecencyStore

/-- Do a step. -/
def perform (s : RecencyStore κ υ) : StoreStep κ υ ε → RecencyStore κ υ
  | .insert k v => s.insert k v
  | .get k => (s.get k).2
  | .getOrInsert k compute => (s.getOrInsert k compute).2
  | .clear => s.clear

/-- Do several steps, one after the other. -/
def performAll (s : RecencyStore κ υ) : List (StoreStep κ υ ε) → RecencyStore κ υ
  | [] => s
  | step :: rest => (s.perform step).performAll rest

/-- Whether a key is new to the store and finds it full. -/
def fullFor (s : RecencyStore κ υ) (k : κ) : Bool :=
  !s.contains k && 0 < s.capacity && s.size == s.capacity

/-- The moments of a run. -/
def log (s : RecencyStore κ υ) : List (StoreStep κ υ ε) → List (Moment κ υ ε)
  | [] => []
  | step :: rest => ⟨s, step⟩ :: (s.perform step).log rest

end RecencyStore

/-! ### What happens at a moment -/

namespace Moment

variable (m : Moment κ υ ε)

omit [DecidableEq κ] in
/-- The key that is looked up. -/
def lookup? : Option κ :=
  match m.step with
  | .get k => some k
  | .getOrInsert k _ => some k
  | .insert _ _ => none
  | .clear => none

/-- The key of a look-up that hits. -/
def hit? : Option κ := m.lookup?.filter m.store.contains

/-- What is inserted: a given value, or the computed one if the key is not held. -/
def insertion? : Option (κ × υ) :=
  match m.step with
  | .insert k v => some (k, v)
  | .getOrInsert k compute =>
    if m.store.contains k then none else (compute ()).toOption.map fun v => (k, v)
  | .get _ => none
  | .clear => none

/-- The key that is used, by a look-up that hits or by an insertion. -/
def used? : Option κ := m.hit?.or (m.insertion?.map Prod.fst)

/-- Whether a new key comes into a store that is full. -/
def evicts : Bool :=
  match m.insertion? with
  | some (k, _) => m.store.fullFor k
  | none => false

omit [DecidableEq κ] in
def isClear : Bool :=
  match m.step with
  | .clear => true
  | _ => false

end Moment

/-! ### What happens in a run -/

/-- The keys that have been used since the store was last cleared. -/
def usesSinceClear (log : List (Moment κ υ ε)) : List κ :=
  (log.rtakeWhile fun m => !m.isClear).filterMap Moment.used?

/-- What has been inserted. -/
def insertions (log : List (Moment κ υ ε)) : List (κ × υ) := log.filterMap Moment.insertion?

theorem usesSinceClear_concat (log : List (Moment κ υ ε)) (m : Moment κ υ ε) :
    usesSinceClear (log ++ [m]) =
      if m.isClear then [] else usesSinceClear log ++ m.used?.toList := by
  rw [usesSinceClear, List.rtakeWhile_concat]
  cases hclear : m.isClear <;> cases hused : m.used? <;> simp [usesSinceClear, hused]

theorem insertions_concat (log : List (Moment κ υ ε)) (m : Moment κ υ ε) :
    insertions (log ++ [m]) = insertions log ++ m.insertion?.toList := by
  cases hins : m.insertion? <;> simp [insertions, hins]

/-! ### Last uses -/

/-- The `n` keys with the latest last use, or all if they are fewer, in the order of that use. Of
equal keys, `dedup` keeps the last one. -/
def lastUsed (n : Nat) (uses : List κ) : List κ := uses.dedup.rtake n

section LastUsed

variable {n : Nat} {k : κ} {uses : List κ}

@[simp] theorem lastUsed_nil (n : Nat) : lastUsed n ([] : List κ) = [] := List.rtake_nil ..

@[simp] theorem lastUsed_zero (uses : List κ) : lastUsed 0 uses = [] := List.rtake_zero ..

theorem nodup_lastUsed (n : Nat) (uses : List κ) : (lastUsed n uses).Nodup :=
  (List.drop_sublist ..).nodup (List.nodup_dedup uses)

theorem length_lastUsed_le (n : Nat) (uses : List κ) : (lastUsed n uses).length ≤ n := by
  rw [lastUsed, List.rtake, List.length_drop]
  omega

/-- Fewer of the last keys are the last of more. -/
theorem rtake_lastUsed (n : Nat) (uses : List κ) :
    (lastUsed (n + 1) uses).rtake n = lastUsed n uses := by
  simp only [lastUsed, List.rtake, List.drop_drop, List.length_drop]
  congr 1
  omega

/-- A use moves its key to the end. -/
theorem dedup_concat (uses : List κ) (k : κ) :
    (uses ++ [k]).dedup = uses.dedup.erase k ++ [k] := by
  induction uses with
  | nil => rfl
  | cons a rest ih =>
      rw [List.cons_append]
      by_cases hmem : a ∈ rest
      · rw [List.dedup_cons_of_mem hmem, List.dedup_cons_of_mem (List.mem_append_left _ hmem), ih]
      · rw [List.dedup_cons_of_notMem hmem]
        by_cases heq : a = k
        · subst heq
          rw [List.dedup_cons_of_mem (by simp), ih, List.erase_cons_head,
            List.erase_of_not_mem (by simpa using hmem)]
        · rw [List.dedup_cons_of_notMem (by simp [hmem, heq]), ih,
            List.erase_cons_tail (by simpa using heq), List.cons_append]

/-- Older keys come before the last `n` ones, and there are some only if these are `n`. -/
theorem exists_dedup_eq_append_lastUsed (n : Nat) (uses : List κ) :
    ∃ older, uses.dedup = older ++ lastUsed n uses ∧
      older.length + (lastUsed n uses).length - n = older.length := by
  refine ⟨uses.dedup.take (uses.dedup.length - n), (List.take_append_drop ..).symm, ?_⟩
  rw [lastUsed, List.rtake, List.length_take, List.length_drop]
  omega

/-- A new use of one of the last keys reorders them. -/
theorem lastUsed_concat_of_mem (h : k ∈ lastUsed n uses) :
    lastUsed n (uses ++ [k]) = (lastUsed n uses).erase k ++ [k] := by
  cases n with
  | zero => simp at h
  | succ n =>
      obtain ⟨older, hsplit, hlength⟩ := exists_dedup_eq_append_lastUsed (n + 1) uses
      have hnodup := hsplit ▸ List.nodup_dedup uses
      have hbefore : k ∉ older := fun hmem => List.disjoint_of_nodup_append hnodup hmem h
      have hpos := List.length_pos_of_mem h
      have herase := List.length_erase_of_mem h
      rw [lastUsed, dedup_concat, List.rtake_concat_succ, hsplit,
        List.erase_append_right _ hbefore]
      congr 1
      refine List.drop_left' ?_
      rw [List.length_append, herase]
      omega

/-- A use of any other key adds it at the end. -/
theorem lastUsed_concat_of_not_mem (h : k ∉ lastUsed n uses) :
    lastUsed (n + 1) (uses ++ [k]) = lastUsed n uses ++ [k] := by
  rw [lastUsed, dedup_concat, List.rtake_concat_succ]
  congr 1
  by_cases hmem : k ∈ uses.dedup
  · -- The key is among the older ones, and the last ones stay.
    obtain ⟨older, hsplit, hlength⟩ := exists_dedup_eq_append_lastUsed n uses
    have hbefore : k ∈ older := (List.mem_append.mp (hsplit ▸ hmem)).resolve_right h
    have hpos := List.length_pos_of_mem hbefore
    have herase := List.length_erase_of_mem hbefore
    rw [hsplit, List.erase_append_left _ hbefore]
    refine List.drop_left' ?_
    rw [List.length_append, herase]
    omega
  · rw [List.erase_of_not_mem hmem, lastUsed]

end LastUsed

end Precedent
