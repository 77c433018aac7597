/-!
# Precedent.Entries

**Lists of entries in key order.** A list of key and value pairs whose keys strictly increase
represents a finite map. `insert` keeps the order and replaces the value of a key that is already
there, so `ofList` lets the last of several values for a key stand. Keys are compared by the `Ord`
instance of their type.
-/

namespace Precedent.Entries

variable {κ υ : Type} [Ord κ]

/-- Put a value at a key, in place of the value that stood there. -/
def insert (k : κ) (v : υ) : List (κ × υ) → List (κ × υ)
  | [] => [(k, v)]
  | (k', v') :: rest =>
    match compare k k' with
    | .lt => (k, v) :: (k', v') :: rest
    | .eq => (k, v) :: rest
    | .gt => (k', v') :: insert k v rest

/-- The entries of a list of pairs, the last value of each key standing. -/
def ofList (pairs : List (κ × υ)) : List (κ × υ) :=
  pairs.foldl (fun entries pair => insert pair.1 pair.2 entries) []

/-- The value at a key. -/
def get? (k : κ) : List (κ × υ) → Option υ
  | [] => none
  | (k', v) :: rest => if compare k k' == .eq then some v else get? k rest

/-- The keys strictly increase. -/
def Increasing (entries : List (κ × υ)) : Prop :=
  entries.Pairwise fun a b => compare a.1 b.1 = .lt

theorem increasing_nil : Increasing ([] : List (κ × υ)) := List.Pairwise.nil

/-- An entry after insertion is the new one or an old one. -/
theorem mem_insert {k : κ} {v : υ} {e : κ × υ} {entries : List (κ × υ)}
    (h : e ∈ insert k v entries) : e = (k, v) ∨ e ∈ entries := by
  induction entries with
  | nil => simpa [insert] using h
  | cons e' rest ih =>
    obtain ⟨k', v'⟩ := e'
    simp only [insert] at h
    split at h <;> grind

/-- Insertion keeps the keys strictly increasing. -/
theorem increasing_insert [Std.TransOrd κ] [Std.LawfulEqOrd κ] (k : κ) (v : υ)
    {entries : List (κ × υ)} (h : Increasing entries) : Increasing (insert k v entries) := by
  induction entries with
  | nil => simp [insert, Increasing]
  | cons e rest ih =>
    obtain ⟨k', v'⟩ := e
    obtain ⟨hhead, htail⟩ := List.pairwise_cons.1 h
    simp only [insert]
    split
    · rename_i hlt
      refine List.pairwise_cons.2 ⟨fun e he => ?_, h⟩
      rcases List.mem_cons.1 he with rfl | he
      · exact hlt
      · exact Std.TransCmp.lt_trans hlt (hhead e he)
    · rename_i heq
      obtain rfl := Std.LawfulEqCmp.eq_of_compare heq
      exact List.pairwise_cons.2 ⟨hhead, htail⟩
    · rename_i hgt
      refine List.pairwise_cons.2 ⟨fun e he => ?_, ih htail⟩
      rcases mem_insert he with rfl | he
      · exact Std.OrientedCmp.lt_of_gt hgt
      · exact hhead e he

/-- The entries of any list of pairs are in strictly increasing key order. -/
theorem increasing_ofList [Std.TransOrd κ] [Std.LawfulEqOrd κ] (pairs : List (κ × υ)) :
    Increasing (ofList pairs) := by
  suffices h : ∀ entries : List (κ × υ), Increasing entries →
      Increasing (pairs.foldl (fun entries pair => insert pair.1 pair.2 entries) entries) from
    h [] increasing_nil
  induction pairs with
  | nil => exact fun _ h => h
  | cons p rest ih => exact fun entries h => ih _ (increasing_insert p.1 p.2 h)

/-- The value at a key is that of the entry with the key; there is one such entry at most. -/
theorem get?_eq_some_iff [Std.TransOrd κ] [Std.LawfulEqOrd κ] {k : κ} {v : υ}
    {entries : List (κ × υ)} (h : Increasing entries) :
    get? k entries = some v ↔ (k, v) ∈ entries := by
  have hself : ∀ k : κ, compare k k = .eq := fun _ => Std.ReflCmp.compare_self
  induction entries with
  | nil => simp [get?]
  | cons e rest ih =>
    obtain ⟨k', v'⟩ := e
    obtain ⟨hhead, htail⟩ := List.pairwise_cons.1 h
    simp only [get?, List.mem_cons, Prod.mk.injEq]
    by_cases hk : k = k'
    · subst hk
      -- The keys behind the first one are greater.
      have hnot : (k, v) ∉ rest := fun hmem => by simpa [hself] using hhead _ hmem
      simp [hnot, eq_comm]
    · have hcmp : (compare k k' == .eq) = false :=
        beq_false_of_ne fun heq => hk (Std.LawfulEqCmp.eq_of_compare heq)
      simp [hk, hcmp, ih htail]

end Precedent.Entries
