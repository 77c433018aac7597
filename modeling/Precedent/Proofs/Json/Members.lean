import Mathlib.Data.List.Induction
import Mathlib.Data.List.Sort
import Precedent.Json.Value

/-!
# Precedent.Proofs.Json.Members

**The members of an object in canonical form.** The last value of each name stands, so what has been
written under different names can be read back under them. A canonical form is left as it is.
-/

namespace Precedent

namespace Entries

variable {κ υ : Type} [Ord κ] [Std.LawfulEqOrd κ] {k k' : κ} {v : υ}

theorem get?_cons_self (k : κ) (v : υ) (rest : List (κ × υ)) :
    get? k ((k, v) :: rest) = some v := by
  have hself : compare k k = .eq := Std.ReflCmp.compare_self
  rw [get?, hself]
  rfl

theorem get?_cons_of_ne (h : k ≠ k') (v : υ) (rest : List (κ × υ)) :
    get? k ((k', v) :: rest) = get? k rest := by
  rw [get?, if_neg]
  rw [beq_iff_eq]
  exact fun heq => h (Std.LawfulEqCmp.eq_of_compare heq)

theorem get?_insert_self (k : κ) (v : υ) (entries : List (κ × υ)) :
    get? k (insert k v entries) = some v := by
  induction entries with
  | nil => exact get?_cons_self ..
  | cons e rest ih =>
      obtain ⟨k', v'⟩ := e
      rw [insert]
      cases hcmp : compare k k' with
      | lt => exact get?_cons_self ..
      | eq => exact get?_cons_self ..
      | gt =>
          have hne : k ≠ k' := by
            rintro rfl
            have hself : compare k k = .eq := Std.ReflCmp.compare_self
            rw [hself] at hcmp
            cases hcmp
          exact (get?_cons_of_ne hne v' _).trans ih

theorem get?_insert_of_ne (h : k ≠ k') (v : υ) (entries : List (κ × υ)) :
    get? k (insert k' v entries) = get? k entries := by
  induction entries with
  | nil => exact get?_cons_of_ne h ..
  | cons e rest ih =>
      obtain ⟨k'', v''⟩ := e
      rw [insert]
      cases hcmp : compare k' k'' with
      | lt => exact get?_cons_of_ne h ..
      | eq =>
          obtain rfl := Std.LawfulEqCmp.eq_of_compare hcmp
          exact (get?_cons_of_ne h ..).trans (get?_cons_of_ne h ..).symm
      | gt =>
          show get? k ((k'', v'') :: insert k' v rest) = get? k ((k'', v'') :: rest)
          rw [get?, get?, ih]

/-- The value at a key is the last one that comes with it. -/
theorem get?_ofList [BEq κ] [LawfulBEq κ] (k : κ) (pairs : List (κ × υ)) :
    get? k (ofList pairs) = (pairs.reverse.find? fun pair => pair.1 == k).map Prod.snd := by
  induction pairs using List.reverseRecOn with
  | nil => rfl
  | append_singleton rest pair ih =>
      rw [ofList, List.foldl_append, List.reverse_concat, List.find?_cons]
      by_cases heq : pair.1 = k
      · obtain rfl := heq
        rw [beq_self_eq_true]
        exact get?_insert_self ..
      · rw [beq_eq_false_iff_ne.mpr heq]
        exact (get?_insert_of_ne (Ne.symm heq) ..).trans ih

/-- One key more is there after insertion. -/
theorem mem_keys_insert {entries : List (κ × υ)} :
    k' ∈ (insert k v entries).map Prod.fst ↔ k' = k ∨ k' ∈ entries.map Prod.fst := by
  induction entries with
  | nil => simp [insert]
  | cons e rest ih =>
      obtain ⟨k'', v''⟩ := e
      rw [insert]
      cases hcmp : compare k k'' with
      | lt => simp
      | eq =>
          obtain rfl := Std.LawfulEqCmp.eq_of_compare hcmp
          simp
      | gt =>
          rw [List.map_cons, List.mem_cons, ih, List.map_cons, List.mem_cons]
          exact or_left_comm

/-- The keys are those that the pairs come with. -/
theorem mem_keys_ofList {pairs : List (κ × υ)} :
    k ∈ (ofList pairs).map Prod.fst ↔ k ∈ pairs.map Prod.fst := by
  induction pairs using List.reverseRecOn with
  | nil => rfl
  | append_singleton rest pair ih =>
      rw [ofList, List.foldl_append, List.map_append, List.mem_append]
      refine mem_keys_insert.trans ?_
      rw [← ofList, ih, List.map_singleton, List.mem_singleton, or_comm]

/-- Entries in the order of their keys are equal as soon as they have the same members. -/
theorem eq_of_increasing [Std.TransOrd κ] {entries entries' : List (κ × υ)}
    (h : Increasing entries) (h' : Increasing entries')
    (hmem : ∀ e, e ∈ entries ↔ e ∈ entries') : entries = entries' := by
  have : Std.Irrefl fun a b : κ × υ => compare a.1 b.1 = .lt := ⟨by simp⟩
  have : Std.Asymm fun a b : κ × υ => compare a.1 b.1 = .lt := ⟨by
    intro a b hlt hgt
    rw [Std.OrientedCmp.gt_of_lt hlt] at hgt
    cases hgt⟩
  exact h.eq_of_mem_iff h' hmem

/-- Entries in the order of their keys are equal as soon as they have the same values. -/
theorem ext_get? [Std.TransOrd κ] {entries entries' : List (κ × υ)} (h : Increasing entries)
    (h' : Increasing entries') (hget : ∀ k, get? k entries = get? k entries') :
    entries = entries' := by
  refine eq_of_increasing h h' fun e => ?_
  rw [← get?_eq_some_iff h, ← get?_eq_some_iff h', hget]

theorem get?_filter (q : κ → Bool) (k : κ) (entries : List (κ × υ)) :
    get? k (entries.filter fun e => q e.1) = if q k then get? k entries else none := by
  induction entries with
  | nil =>
      rw [List.filter_nil, get?]
      exact (ite_self none).symm
  | cons e rest ih =>
      obtain ⟨k', v⟩ := e
      rw [List.filter_cons]
      by_cases hk : k = k'
      · obtain rfl := hk
        cases hq : q k with
        | true => rw [if_pos rfl, if_pos rfl, get?_cons_self, get?_cons_self]
        | false => rw [if_neg Bool.false_ne_true, if_neg Bool.false_ne_true, ih, hq]; rfl
      · rw [get?_cons_of_ne hk, ← ih]
        split
        · exact get?_cons_of_ne hk ..
        · rfl

theorem get?_map {ω : Type} (f : κ → υ → ω) (k : κ) (entries : List (κ × υ)) :
    get? k (entries.map fun e => (e.1, f e.1 e.2)) = (get? k entries).map (f k) := by
  induction entries with
  | nil => rfl
  | cons e rest ih =>
      obtain ⟨k', v⟩ := e
      rw [List.map_cons]
      by_cases hk : k = k'
      · obtain rfl := hk
        rw [get?_cons_self, get?_cons_self, Option.map_some]
      · rw [get?_cons_of_ne hk, get?_cons_of_ne hk, ih]

/-- Whether an entry is kept by its key can be decided before the entries are put in order. -/
theorem filter_ofList [Std.TransOrd κ] [BEq κ] [LawfulBEq κ] (q : κ → Bool)
    (pairs : List (κ × υ)) :
    (ofList pairs).filter (fun e => q e.1) = ofList (pairs.filter fun e => q e.1) := by
  refine ext_get? (List.Pairwise.filter _ (increasing_ofList pairs)) (increasing_ofList _)
    fun k => ?_
  rw [get?_filter, get?_ofList, get?_ofList, ← List.filter_reverse, List.find?_filter]
  -- A pair with the key is kept or not as the key is.
  cases hq : q k with
  | true =>
      have hkept : (fun pair : κ × υ => decide (q pair.1 = true ∧ (pair.1 == k) = true)) =
          fun pair => pair.1 == k := by
        funext pair
        by_cases hk : pair.1 = k <;> simp [hk, hq]
      rw [hkept, if_pos rfl]
  | false =>
      rw [if_neg Bool.false_ne_true, List.find?_eq_none.mpr]
      · rfl
      · rintro pair -
        rw [decide_eq_true_eq, beq_iff_eq]
        rintro ⟨hpair, rfl⟩
        rw [hq] at hpair
        cases hpair

omit [Std.LawfulEqOrd κ] in
theorem mem_of_mem_ofList {e : κ × υ} {pairs : List (κ × υ)} (h : e ∈ ofList pairs) :
    e ∈ pairs := by
  induction pairs using List.reverseRecOn with
  | nil => exact h
  | append_singleton rest pair ih =>
      rw [ofList, List.foldl_append] at h
      rcases mem_insert h with rfl | h
      · exact List.mem_append_right _ (List.mem_singleton_self _)
      · exact List.mem_append_left _ (ih h)

/-- Pairs with different keys are all there. -/
theorem mem_ofList {e : κ × υ} {pairs : List (κ × υ)} (h : (pairs.map Prod.fst).Nodup) :
    e ∈ ofList pairs ↔ e ∈ pairs := by
  constructor
  · exact mem_of_mem_ofList
  · intro he
    obtain ⟨e', he', hkey⟩ := List.mem_map.mp (mem_keys_ofList.mpr (List.mem_map_of_mem he))
    rwa [← List.inj_on_of_nodup_map h (mem_of_mem_ofList he') he hkey]

/-- The order of pairs with different keys does not matter. -/
theorem ofList_perm [Std.TransOrd κ] {pairs pairs' : List (κ × υ)} (hperm : pairs.Perm pairs')
    (h : (pairs.map Prod.fst).Nodup) : ofList pairs = ofList pairs' := by
  have h' : (pairs'.map Prod.fst).Nodup := (hperm.map Prod.fst).nodup_iff.mp h
  refine eq_of_increasing (increasing_ofList pairs) (increasing_ofList pairs') fun e => ?_
  rw [mem_ofList h, mem_ofList h', hperm.mem_iff]

/-! ### Entries that are put in order -/

section Order

omit [Std.LawfulEqOrd κ]

/-- The entries with their values changed in a way that may depend on the key. -/
theorem map_insert {ω : Type} (f : κ → υ → ω) (k : κ) (v : υ) (entries : List (κ × υ)) :
    (insert k v entries).map (fun e => (e.1, f e.1 e.2)) =
      insert k (f k v) (entries.map fun e => (e.1, f e.1 e.2)) := by
  induction entries with
  | nil => rfl
  | cons e rest ih =>
      obtain ⟨k', v'⟩ := e
      rw [List.map_cons]
      show _ = insert k (f k v) ((k', f k' v') :: rest.map fun e => (e.1, f e.1 e.2))
      rw [insert, insert]
      cases compare k k' with
      | lt => rfl
      | eq => rfl
      | gt => exact congrArg ((k', f k' v') :: ·) ih

theorem map_ofList {ω : Type} (f : κ → υ → ω) (pairs : List (κ × υ)) :
    (ofList pairs).map (fun e => (e.1, f e.1 e.2)) =
      ofList (pairs.map fun e => (e.1, f e.1 e.2)) := by
  induction pairs using List.reverseRecOn with
  | nil => rfl
  | append_singleton rest pair ih =>
      rw [ofList, List.foldl_append, List.map_append, ofList, List.foldl_append]
      exact (map_insert f pair.1 pair.2 _).trans (congrArg (insert pair.1 (f pair.1 pair.2)) ih)

theorem insert_eq_concat [Std.OrientedOrd κ] {k : κ} {v : υ} {entries : List (κ × υ)}
    (h : ∀ e ∈ entries, compare e.1 k = .lt) : insert k v entries = entries ++ [(k, v)] := by
  induction entries with
  | nil => rfl
  | cons e rest ih =>
      obtain ⟨k', v'⟩ := e
      have hgt : compare k k' = .gt := Std.OrientedCmp.gt_of_lt (h (k', v') List.mem_cons_self)
      rw [insert, hgt, List.cons_append]
      exact congrArg _ (ih fun e he => h e (List.mem_cons_of_mem _ he))

/-- Entries in the order of their keys stay as they are. -/
theorem ofList_of_increasing [Std.OrientedOrd κ] {entries : List (κ × υ)} (h : Increasing entries) :
    ofList entries = entries := by
  induction entries using List.reverseRecOn with
  | nil => rfl
  | append_singleton rest e ih =>
      obtain ⟨hrest, -, hlast⟩ := List.pairwise_append.mp h
      rw [ofList, List.foldl_append]
      show insert e.1 e.2 (ofList rest) = _
      rw [ih hrest, insert_eq_concat fun e' he' => hlast e' he' e (List.mem_singleton_self e)]

end Order

end Entries

namespace Json

theorem canonicalMembers_eq_map (members : List (String × Json)) :
    canonicalMembers members = members.map fun m => (m.1, canonical m.2) := by
  induction members with
  | nil => rfl
  | cons m rest ih => rw [canonicalMembers, ih, List.map_cons]

/-- The member of a name is the last one that has been written under it. -/
theorem member?_canonical (name : String) (members : List (String × Json)) :
    (canonical (.object members)).member? name =
      (members.reverse.find? fun m => m.1 == name).map fun m => canonical m.2 := by
  rw [canonical, canonicalMembers_eq_map, member?, Entries.get?_ofList, ← List.map_reverse,
    List.find?_map, Option.map_map]
  rfl

theorem canonicalItems_eq_map (items : List Json) : canonicalItems items = items.map canonical := by
  induction items with
  | nil => rfl
  | cons v rest ih => rw [canonicalItems, ih, List.map_cons]

/-- A canonical form is its own canonical form. -/
theorem canonical_canonical (v : Json) : v.canonical.canonical = v.canonical := by
  match v with
  | .list items =>
      have hitems : ∀ v ∈ items, v.canonical.canonical = v.canonical := fun v hv =>
        canonical_canonical v
      rw [canonical, canonical, canonicalItems_eq_map, canonicalItems_eq_map, List.map_map]
      exact congrArg list (List.map_congr_left hitems)
  | .object members =>
      have hmembers :
          members.map ((fun e => (e.1, canonical e.2)) ∘ fun m => (m.1, canonical m.2)) =
            members.map fun m => (m.1, canonical m.2) :=
        List.map_congr_left fun m hm => Prod.ext rfl (canonical_canonical m.2)
      rw [canonical, canonical, canonicalMembers_eq_map, canonicalMembers_eq_map,
        Entries.map_ofList fun _ => canonical, List.map_map, hmembers,
        Entries.ofList_of_increasing (Entries.increasing_ofList _)]
  | .null | .bool _ | .int _ | .double _ | .single _ | .text _ => rfl
termination_by sizeOf v
decreasing_by
  · have hlt := List.sizeOf_lt_of_mem ‹v ∈ items›
    rw [list.sizeOf_spec]
    omega
  · have hlt := List.sizeOf_lt_of_mem ‹m ∈ members›
    have hpair : sizeOf m = 1 + sizeOf m.1 + sizeOf m.2 := Prod.mk.sizeOf_spec ..
    rw [object.sizeOf_spec]
    omega

end Json

end Precedent
