import Precedent.Proofs.Lookup.History

/-!
# Precedent.Proofs.Lookup.Recency

**A store holds what was used last.** Its table and its queue hold the same keys: those with the
latest last use since the store was last cleared, each with the value that was inserted last. A
look-up that hits only reorders the queue. To take up a new key, a store that holds the last `n + 1`
keys first comes down to the last `n`, by dropping one if it is full and by itself if it is not.
-/

namespace Precedent

namespace RecencyStore

variable {κ υ ε : Type} [DecidableEq κ]

/-! ### The table -/

theorem map_fst_without (k : κ) (entries : List (κ × υ)) :
    (without k entries).map Prod.fst = (entries.map Prod.fst).filter (· != k) := by
  rw [without, List.filter_map]
  rfl

/-- The values of other keys stay. -/
theorem lookup_without {k k' : κ} (hne : k' ≠ k) (entries : List (κ × υ)) :
    (without k entries).lookup k' = entries.lookup k' := by
  induction entries with
  | nil => rfl
  | cons e rest ih =>
      obtain ⟨k'', v⟩ := e
      unfold without at ih ⊢
      by_cases heq : k'' = k
      · subst heq
        rw [List.filter_cons_of_neg (by simp), ih, List.lookup_cons, beq_false_of_ne hne]
      · rw [List.filter_cons_of_pos (by simpa using heq), List.lookup_cons, List.lookup_cons, ih]

section Operations

variable {s : RecencyStore κ υ} {n : Nat} {k : κ} {v : υ} {uses : List κ}
  {inserted : List (κ × υ)}

theorem contains_iff : s.contains k = true ↔ k ∈ s.keys := by
  simp [contains]

theorem find?_eq_none_iff : s.find? k = none ↔ s.contains k = false := by
  rw [← Bool.not_eq_true, contains_iff, find?, List.lookup_eq_none_iff, keys, List.mem_map]
  constructor
  · intro hnone hmem
    obtain ⟨e, he, heq⟩ := hmem
    simpa [heq] using hnone e he
  · intro hmem e he
    simpa using fun heq => hmem ⟨e, he, heq.symm⟩

theorem exists_find? (h : s.contains k = true) : ∃ v, s.find? k = some v := by
  refine Option.ne_none_iff_exists'.mp fun hnone => ?_
  rw [find?_eq_none_iff.mp hnone] at h
  cases h

theorem find?_put (s : RecencyStore κ υ) (k k' : κ) (v : υ) :
    (s.put k v).find? k' = if k' = k then some v else s.find? k' := by
  unfold put find?
  by_cases h : k' = k
  · simp [h]
  · rw [List.lookup_cons, beq_false_of_ne h, if_neg h]
    exact lookup_without h s.entries

/-! ### What is held -/

/-- A store holds the `n` keys that were used last, with the values that were inserted last. -/
structure Holds (s : RecencyStore κ υ) (n : Nat) (uses : List κ) (inserted : List (κ × υ)) :
    Prop where
  keys_perm : s.keys.Perm s.recency
  recency_eq : s.recency = lastUsed n uses
  find?_eq : ∀ k ∈ s.recency, s.find? k = inserted.reverse.lookup k

namespace Holds

theorem nil (hkeys : s.keys = []) (hrecency : s.recency = []) (n : Nat)
    (inserted : List (κ × υ)) : s.Holds n [] inserted where
  keys_perm := by rw [hkeys, hrecency]
  recency_eq := by rw [hrecency, lastUsed_nil]
  find?_eq := by simp [hrecency]

theorem nodup_recency (h : s.Holds n uses inserted) : s.recency.Nodup :=
  h.recency_eq ▸ nodup_lastUsed n uses

theorem nodup_keys (h : s.Holds n uses inserted) : s.keys.Nodup :=
  h.keys_perm.nodup_iff.mpr h.nodup_recency

theorem size_eq (h : s.Holds n uses inserted) : s.size = s.recency.length := by
  rw [← h.keys_perm.length_eq, keys, List.length_map, size]

theorem size_le (h : s.Holds n uses inserted) : s.size ≤ n := by
  rw [h.size_eq, h.recency_eq]
  exact length_lastUsed_le n uses

theorem contains_iff_mem (h : s.Holds n uses inserted) :
    s.contains k = true ↔ k ∈ s.recency := contains_iff.trans h.keys_perm.mem_iff

/-! ### Changes of the table and the queue -/

/-- A value that is put at a key of the queue is held there. -/
theorem put (hkeys : (k :: s.keys.filter (· != k)).Perm s.recency)
    (hrecency : s.recency = lastUsed n uses)
    (hfind : ∀ k' ∈ s.recency, k' ≠ k → s.find? k' = inserted.reverse.lookup k') :
    (s.put k v).Holds n uses (inserted ++ [(k, v)]) where
  keys_perm := by
    show ((k, v) :: without k s.entries).map Prod.fst |>.Perm s.recency
    rw [List.map_cons, map_fst_without]
    exact hkeys
  recency_eq := hrecency
  find?_eq := by
    intro k' hk'
    rw [find?_put, List.reverse_append, List.reverse_singleton, List.singleton_append,
      List.lookup_cons]
    by_cases heq : k' = k
    · simp [heq]
    · rw [if_neg heq, beq_false_of_ne heq]
      exact hfind k' hk' heq

/-- A use of a key that is held moves it to the end of the queue. -/
theorem touch (h : s.Holds n uses inserted) (hk : k ∈ s.recency) :
    (s.touch k).Holds n (uses ++ [k]) inserted := by
  have hrecency : (s.touch k).recency = s.recency.erase k ++ [k] :=
    if_pos (List.contains_iff_mem.mpr hk)
  have hperm : s.recency.Perm (s.touch k).recency := by
    rw [hrecency]
    exact (List.perm_cons_erase hk).trans (List.perm_append_singleton ..).symm
  refine ⟨h.keys_perm.trans hperm, ?_, fun k' hk' => h.find?_eq k' (hperm.mem_iff.mpr hk')⟩
  rw [hrecency, h.recency_eq, lastUsed_concat_of_mem (h.recency_eq ▸ hk)]

/-- A store that drops its oldest key holds one key less. -/
theorem evict (h : s.Holds (n + 1) uses inserted) (hfull : s.size = n + 1) :
    s.evict.Holds n uses inserted := by
  have hnodup := h.nodup_recency
  have hlength := h.size_eq
  cases hqueue : s.recency with
  | nil => simp [hqueue, hfull] at hlength
  | cons oldest rest =>
      have hevict : s.evict = { s with
          entries := without oldest s.entries
          recency := rest
          counts := { s.counts with evictions := s.counts.evictions + 1 } } := by
        rw [RecencyStore.evict, hqueue]
      rw [hqueue] at hnodup hlength
      rw [List.nodup_cons] at hnodup
      rw [hevict]
      refine ⟨?_, ?_, ?_⟩
      · have hperm := h.keys_perm.erase oldest
        rw [hqueue, List.erase_cons_head, h.nodup_keys.erase_eq_filter] at hperm
        show ((without oldest s.entries).map Prod.fst).Perm rest
        rw [map_fst_without]
        exact hperm
      · show rest = lastUsed n uses
        rw [← rtake_lastUsed, ← h.recency_eq, hqueue, List.rtake, ← hlength, hfull]
        simp
      · intro k' hk'
        have hne : k' ≠ oldest := fun heq => hnodup.1 (heq ▸ hk')
        show (without oldest s.entries).lookup k' = _
        rw [lookup_without hne]
        exact h.find?_eq k' (hqueue ▸ List.mem_cons_of_mem _ hk')

/-- A store that is not full holds all keys that it would hold with less room. -/
theorem of_size_le (h : s.Holds (n + 1) uses inserted) (hsize : s.size ≤ n) :
    s.Holds n uses inserted where
  keys_perm := h.keys_perm
  recency_eq := by
    rw [h.size_eq] at hsize
    rw [← rtake_lastUsed, ← h.recency_eq, List.rtake, Nat.sub_eq_zero_of_le hsize, List.drop_zero]
  find?_eq := h.find?_eq

theorem makeRoom (h : s.Holds (n + 1) uses inserted) (hcapacity : s.capacity = n + 1) :
    s.makeRoom.Holds n uses inserted := by
  unfold RecencyStore.makeRoom
  by_cases hfull : s.capacity ≤ s.size
  · rw [if_pos hfull]
    exact h.evict (Nat.le_antisymm h.size_le (hcapacity ▸ hfull))
  · rw [if_neg hfull]
    exact h.of_size_le (by omega)

/-- A new key takes the room that there is for one more. -/
theorem enqueue_put (h : s.Holds n uses inserted) (hk : k ∉ s.recency) :
    ((s.enqueue k).put k v).Holds (n + 1) (uses ++ [k]) (inserted ++ [(k, v)]) := by
  refine put ?_ ?_ ?_
  · show (k :: s.keys.filter (· != k)).Perm (s.recency ++ [k])
    rw [← h.nodup_keys.erase_eq_filter,
      List.erase_of_not_mem fun hmem => hk (h.keys_perm.mem_iff.mp hmem)]
    exact (h.keys_perm.cons k).trans (List.perm_append_singleton ..).symm
  · show s.recency ++ [k] = _
    rw [lastUsed_concat_of_not_mem (h.recency_eq ▸ hk), h.recency_eq]
  · intro k' hk' hne
    rcases List.mem_append.mp hk' with hmem | hmem
    · exact h.find?_eq k' hmem
    · exact absurd (List.mem_singleton.mp hmem) hne

/-! ### Operations -/

theorem insert (h : s.Holds s.capacity uses inserted) (k : κ) (v : υ) :
    (s.insert k v).Holds s.capacity (uses ++ [k]) (inserted ++ [(k, v)]) := by
  unfold RecencyStore.insert
  cases hcapacity : s.capacity with
  | zero =>
      -- Without room, nothing is held before and after.
      have hrecency : s.recency = [] := by rw [h.recency_eq, hcapacity, lastUsed_zero]
      rw [if_pos rfl]
      exact ⟨h.keys_perm, by rw [hrecency, lastUsed_zero], by simp [hrecency]⟩
  | succ n =>
      rw [if_neg (Nat.succ_ne_zero n)]
      rw [hcapacity] at h
      cases hcontains : s.contains k with
      | true =>
          have hk := h.contains_iff_mem.mp hcontains
          have htouch := h.touch hk
          rw [if_pos rfl]
          refine put ?_ htouch.recency_eq fun k' hk' _ => htouch.find?_eq k' hk'
          rw [← htouch.nodup_keys.erase_eq_filter]
          exact (List.perm_cons_erase (contains_iff.mp hcontains)).symm.trans htouch.keys_perm
      | false =>
          have hk : k ∉ s.recency := fun hmem => by
            rw [h.contains_iff_mem.mpr hmem] at hcontains
            cases hcontains
          have hroom := h.makeRoom hcapacity
          rw [if_neg Bool.false_ne_true]
          refine hroom.enqueue_put fun hmem => hk ?_
          rw [hroom.recency_eq, ← rtake_lastUsed, ← h.recency_eq] at hmem
          exact List.mem_of_mem_drop hmem

theorem hit (h : s.Holds n uses inserted) (hcontains : s.contains k = true) :
    (s.hit k).Holds n (uses ++ [k]) inserted :=
  have htouch := h.touch (h.contains_iff_mem.mp hcontains)
  ⟨htouch.keys_perm, htouch.recency_eq, htouch.find?_eq⟩

theorem miss (h : s.Holds n uses inserted) : s.miss.Holds n uses inserted :=
  ⟨h.keys_perm, h.recency_eq, h.find?_eq⟩

end Holds

/-! ### Capacity and counters -/

@[simp] theorem capacity_evict (s : RecencyStore κ υ) : s.evict.capacity = s.capacity := by
  unfold evict
  cases s.recency <;> rfl

@[simp] theorem capacity_makeRoom (s : RecencyStore κ υ) :
    s.makeRoom.capacity = s.capacity := by
  unfold makeRoom
  split <;> simp

@[simp] theorem capacity_insert (s : RecencyStore κ υ) (k : κ) (v : υ) :
    (s.insert k v).capacity = s.capacity := by
  unfold insert
  split
  · rfl
  · split <;> simp [put, touch, enqueue]

/-- What an insertion counts. -/
theorem counts_insert (h : s.Holds s.capacity uses inserted) (k : κ) (v : υ) :
    (s.insert k v).counts =
      { s.counts with evictions := s.counts.evictions + (s.fullFor k).toNat } := by
  unfold insert fullFor
  by_cases hzero : s.capacity = 0
  · simp [hzero]
  · have hpos := Nat.pos_of_ne_zero hzero
    rw [if_neg hzero]
    cases hcontains : s.contains k with
    | true => simp [put, touch]
    | false =>
        simp only [Bool.false_eq_true, if_false, put, enqueue, makeRoom]
        by_cases hfull : s.capacity ≤ s.size
        · -- A full store with room for an entry has an oldest one.
          have hsize : s.size = s.capacity := Nat.le_antisymm h.size_le hfull
          have hlength := h.size_eq
          rw [if_pos hfull, evict]
          cases hqueue : s.recency with
          | nil => simp [hqueue, hsize, hzero] at hlength
          | cons oldest rest => simp [hpos, hsize]
        · have hsize : s.size ≠ s.capacity := fun heq => hfull heq.ge
          rw [if_neg hfull]
          simp [beq_false_of_ne hsize]

/-! ### Look-ups -/

theorem exists_get (h : s.contains k = true) : ∃ v, s.get k = (some v, s.hit k) := by
  obtain ⟨v, hfind⟩ := exists_find? h
  exact ⟨v, by rw [get, hfind]⟩

theorem get_of_not_contains (h : s.contains k = false) : s.get k = (none, s.miss) := by
  rw [get, find?_eq_none_iff.mpr h]

theorem exists_getOrInsert (h : s.contains k = true) (compute : Unit → Except ε υ) :
    ∃ v, s.getOrInsert k compute = (.ok v, s.hit k) := by
  obtain ⟨v, hget⟩ := exists_get h
  exact ⟨v, by rw [getOrInsert, hget]⟩

/-- A value that is computed is inserted after the miss. -/
theorem getOrInsert_of_ok (h : s.contains k = false) {compute : Unit → Except ε υ}
    (hcompute : compute () = .ok v) :
    s.getOrInsert k compute = (.ok v, s.miss.insert k v) := by
  rw [getOrInsert, get_of_not_contains h]
  simp only [hcompute]

/-- A computation that fails leaves the store with one more miss. -/
theorem getOrInsert_of_error (h : s.contains k = false) {compute : Unit → Except ε υ} {e : ε}
    (hcompute : compute () = .error e) : s.getOrInsert k compute = (.error e, s.miss) := by
  rw [getOrInsert, get_of_not_contains h]
  simp only [hcompute]

end Operations

/-! ### Runs -/

/-- A store agrees with the moments that led to it. -/
structure Follows (s : RecencyStore κ υ) (capacity : Nat) (log : List (Moment κ υ ε)) : Prop where
  capacity_eq : s.capacity = capacity
  holds : s.Holds s.capacity (usesSinceClear log) (insertions log)
  hits_eq : s.counts.hits = (log.filterMap Moment.hit?).length
  lookups_eq : s.counts.hits + s.counts.misses = (log.filterMap Moment.lookup?).length
  evictions_eq : s.counts.evictions = log.countP Moment.evicts

namespace Follows

variable {s s' : RecencyStore κ υ} {capacity : Nat} {log : List (Moment κ υ ε)}
  {m : Moment κ υ ε}

theorem new (capacity : Nat) :
    (RecencyStore.new capacity : RecencyStore κ υ).Follows capacity ([] : List (Moment κ υ ε)) where
  capacity_eq := rfl
  holds := .nil rfl rfl _ _
  hits_eq := rfl
  lookups_eq := rfl
  evictions_eq := rfl

/-- One more moment, said by what happens at it. -/
theorem concat (h : s.Follows capacity log) (hcapacity : s'.capacity = s.capacity)
    (hholds : s'.Holds s'.capacity
      (if m.isClear then [] else usesSinceClear log ++ m.used?.toList)
      (insertions log ++ m.insertion?.toList))
    (hhits : s'.counts.hits = s.counts.hits + m.hit?.toList.length)
    (hlookups : s'.counts.hits + s'.counts.misses =
      s.counts.hits + s.counts.misses + m.lookup?.toList.length)
    (hevictions : s'.counts.evictions = s.counts.evictions + m.evicts.toNat) :
    s'.Follows capacity (log ++ [m]) where
  capacity_eq := hcapacity.trans h.capacity_eq
  holds := by
    rw [usesSinceClear_concat, insertions_concat]
    exact hholds
  hits_eq := by
    rw [hhits, h.hits_eq]
    cases hhit : m.hit? <;> simp [hhit]
  lookups_eq := by
    rw [hlookups, h.lookups_eq]
    cases hlookup : m.lookup? <;> simp [hlookup]
  evictions_eq := by
    rw [hevictions, h.evictions_eq]
    cases hevicts : m.evicts <;> simp [hevicts]

/-- A moment at which a key is found and nothing is inserted. -/
theorem hit (h : m.store.Follows capacity log) {k : κ} (hlookup : m.lookup? = some k)
    (hcontains : m.store.contains k = true) (hinsertion : m.insertion? = none)
    (hclear : m.isClear = false) : (m.store.hit k).Follows capacity (log ++ [m]) := by
  have hhit : m.hit? = some k := by simp [Moment.hit?, hlookup, hcontains]
  have hused : m.used? = some k := by simp [Moment.used?, hhit]
  have hevicts : m.evicts = false := by simp [Moment.evicts, hinsertion]
  refine h.concat rfl ?_ ?_ ?_ ?_
  · show (m.store.hit k).Holds m.store.capacity _ _
    simpa [hclear, hused, hinsertion] using h.holds.hit hcontains
  · simp [hhit, RecencyStore.hit]
  · simp [hlookup, RecencyStore.hit]
    omega
  · simp [hevicts, RecencyStore.hit, RecencyStore.touch]

/-- A moment at which a key is not found and nothing is inserted. -/
theorem miss (h : m.store.Follows capacity log) {k : κ} (hlookup : m.lookup? = some k)
    (hcontains : m.store.contains k = false) (hinsertion : m.insertion? = none)
    (hclear : m.isClear = false) : m.store.miss.Follows capacity (log ++ [m]) := by
  have hhit : m.hit? = none := by simp [Moment.hit?, hlookup, hcontains]
  have hused : m.used? = none := by simp [Moment.used?, hhit, hinsertion]
  have hevicts : m.evicts = false := by simp [Moment.evicts, hinsertion]
  refine h.concat rfl ?_ ?_ ?_ ?_
  · show m.store.miss.Holds m.store.capacity _ _
    simpa [hclear, hused, hinsertion] using h.holds.miss
  · simp [hhit, RecencyStore.miss]
  · simp [hlookup, RecencyStore.miss]
    omega
  · simp [hevicts, RecencyStore.miss]

/-- A moment at which a key is not found and then inserted. -/
theorem miss_insert (h : m.store.Follows capacity log) {k : κ} {v : υ}
    (hlookup : m.lookup? = some k) (hcontains : m.store.contains k = false)
    (hinsertion : m.insertion? = some (k, v)) (hclear : m.isClear = false) :
    (m.store.miss.insert k v).Follows capacity (log ++ [m]) := by
  have hcounts := counts_insert h.holds.miss k v
  have hhit : m.hit? = none := by simp [Moment.hit?, hlookup, hcontains]
  have hused : m.used? = some k := by simp [Moment.used?, hhit, hinsertion]
  have hevicts : m.evicts = m.store.miss.fullFor k := by simp [Moment.evicts, hinsertion]; rfl
  refine h.concat (capacity_insert ..) ?_ ?_ ?_ ?_
  · rw [capacity_insert]
    simpa [hclear, hused, hinsertion] using h.holds.miss.insert k v
  · rw [hcounts, hhit]
    rfl
  · rw [hcounts, hlookup]
    rfl
  · rw [hcounts, hevicts]
    rfl

/-- One more step. -/
theorem perform (h : s.Follows capacity log) (step : StoreStep κ υ ε) :
    (s.perform step).Follows capacity (log ++ [⟨s, step⟩]) := by
  cases step with
  | insert k v =>
      have hcounts := counts_insert h.holds k v
      refine h.concat (capacity_insert s k v) ?_ ?_ ?_ ?_
      · rw [RecencyStore.perform, capacity_insert]
        exact h.holds.insert k v
      all_goals
        rw [RecencyStore.perform, hcounts]
        rfl
  | get k =>
      rw [RecencyStore.perform]
      cases hcontains : s.contains k with
      | true =>
          obtain ⟨v, hget⟩ := exists_get hcontains
          rw [hget]
          exact hit (m := ⟨s, .get k⟩) h rfl hcontains rfl rfl
      | false =>
          rw [get_of_not_contains hcontains]
          exact miss (m := ⟨s, .get k⟩) h rfl hcontains rfl rfl
  | getOrInsert k compute =>
      rw [RecencyStore.perform]
      cases hcontains : s.contains k with
      | true =>
          obtain ⟨v, hget⟩ := exists_getOrInsert hcontains compute
          rw [hget]
          exact hit (m := ⟨s, .getOrInsert k compute⟩) h rfl hcontains
            (by simp [Moment.insertion?, hcontains]) rfl
      | false =>
          cases hcompute : compute () with
          | ok v =>
              rw [getOrInsert_of_ok hcontains hcompute]
              exact miss_insert (m := ⟨s, .getOrInsert k compute⟩) h rfl hcontains
                (by simp [Moment.insertion?, hcontains, hcompute, Except.toOption]) rfl
          | error e =>
              rw [getOrInsert_of_error hcontains hcompute]
              exact miss (m := ⟨s, .getOrInsert k compute⟩) h rfl hcontains
                (by simp [Moment.insertion?, hcontains, hcompute, Except.toOption]) rfl
  | clear => exact h.concat rfl (.nil rfl rfl _ _) rfl rfl rfl

/-- Any number of steps more. -/
theorem performAll (h : s.Follows capacity log) (steps : List (StoreStep κ υ ε)) :
    (s.performAll steps).Follows capacity (log ++ s.log steps) := by
  induction steps generalizing s log with
  | nil =>
      rw [RecencyStore.log, List.append_nil]
      exact h
  | cons step rest ih =>
      have hrest := ih (h.perform step)
      rw [List.append_assoc, List.singleton_append] at hrest
      exact hrest

end Follows

/-- What a store remembers of the moments that led to it. -/
structure Remembers (s : RecencyStore κ υ) (capacity : Nat) (log : List (Moment κ υ ε)) :
    Prop where
  capacity_eq : s.capacity = capacity
  /-- The table and the queue hold the same keys, each once. -/
  keys_perm : s.keys.Perm s.recency
  nodup : s.recency.Nodup
  size_le : s.size ≤ capacity
  /-- The queue lists the keys that were used last since the store was cleared, by last use. -/
  recency_eq : s.recency = lastUsed capacity (usesSinceClear log)
  /-- The value of a key is the one inserted last. -/
  find?_eq : ∀ k ∈ s.recency, ∃ v, s.find? k = some v ∧ (insertions log).reverse.lookup k = some v
  hits_eq : s.counts.hits = (log.filterMap Moment.hit?).length
  /-- Every look-up is a hit or a miss. -/
  lookups_eq : s.counts.hits + s.counts.misses = (log.filterMap Moment.lookup?).length
  /-- An entry goes exactly when a new key finds the store full. -/
  evictions_eq : s.counts.evictions = log.countP Moment.evicts
  /-- A computation that fails changes nothing but the number of misses. -/
  getOrInsert_of_error : ∀ (k : κ) (compute : Unit → Except ε υ) (e : ε), s.contains k = false →
    compute () = .error e → s.getOrInsert k compute =
      (.error e, { s with counts := { s.counts with misses := s.counts.misses + 1 } })

/-- **A store remembers exactly what was used last**, after any steps on a new one. -/
theorem performAll_remembers (capacity : Nat) (steps : List (StoreStep κ υ ε)) :
    ((new capacity : RecencyStore κ υ).performAll steps).Remembers capacity
      ((new capacity).log steps) := by
  have h := (Follows.new capacity : (new capacity : RecencyStore κ υ).Follows capacity
    ([] : List (Moment κ υ ε))).performAll steps
  rw [List.nil_append] at h
  have hholds := h.holds
  rw [h.capacity_eq] at hholds
  refine
    { capacity_eq := h.capacity_eq
      keys_perm := hholds.keys_perm
      nodup := hholds.nodup_recency
      size_le := hholds.size_le
      recency_eq := hholds.recency_eq
      find?_eq := ?_
      hits_eq := h.hits_eq
      lookups_eq := h.lookups_eq
      evictions_eq := h.evictions_eq
      getOrInsert_of_error := fun _ _ _ hcontains hcompute =>
        RecencyStore.getOrInsert_of_error hcontains hcompute }
  intro k hk
  obtain ⟨v, hget⟩ := exists_find? (hholds.contains_iff_mem.mpr hk)
  exact ⟨v, hget, by rw [← hholds.find?_eq k hk, hget]⟩

/-- The second key goes, as the first one was looked up after it. -/
example : ((new 2 : RecencyStore Nat String).performAll
    ([.insert 1 "a", .insert 2 "b", .get 1, .insert 3 "c"] : List (StoreStep Nat String Unit))
    ).recency = [1, 3] := rfl

end RecencyStore

end Precedent
