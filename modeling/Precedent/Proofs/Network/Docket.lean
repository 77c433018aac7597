import Mathlib.Data.List.Nodup
import Precedent.Network.Docket

/-!
# Precedent.Proofs.Network.Docket

**What a network that has been built is built from.** A list of records that is accepted gives one
filing for each record, with pairwise different identifiers. The opinions of the network are those
filings in chronological order, each of them at its place (`WellPlaced`).

A docket keeps the identifiers that are taken beside the filings. Both grow together, or neither
does (`submit_cases`), so the chronological order counts the citations of the filings themselves.
-/

namespace Precedent

namespace Docket

variable {d d' : Docket} {r : OpinionRecord} {date : Date}

/-! ### Handing in one record -/

/-- The docket that has taken up one more record. -/
def extended (d : Docket) (date : Date) (r : OpinionRecord) : Docket :=
  ⟨d.filings ++ [⟨date, r⟩], d.taken ++ [r.id]⟩

theorem submit_of_undated (h : parseDate r.dateFiled = none) :
    d.submit r = (.error (.invalidDate r.id r.dateFiled), d) := by
  rw [submit, h]

theorem submit_of_taken (hdate : parseDate r.dateFiled = some date) (h : r.id ∈ d.taken) :
    d.submit r = (.error (.duplicateOpinion r.id), d) := by
  rw [submit, hdate, reserve, if_pos (by simpa using h)]

theorem submit_of_free (hdate : parseDate r.dateFiled = some date) (h : r.id ∉ d.taken) :
    d.submit r = (.ok (), d.extended date r) := by
  rw [submit, hdate, reserve, if_neg (by simpa using h)]
  rfl

/-- All that can happen to a record: it is refused for its date, and then for its identifier, with
the docket left as it was; or it is taken up. -/
theorem submit_cases (d : Docket) (r : OpinionRecord) :
    (parseDate r.dateFiled = none ∧
      d.submit r = (.error (.invalidDate r.id r.dateFiled), d)) ∨
    (∃ date, parseDate r.dateFiled = some date ∧ r.id ∈ d.taken ∧
      d.submit r = (.error (.duplicateOpinion r.id), d)) ∨
    (∃ date, parseDate r.dateFiled = some date ∧ r.id ∉ d.taken ∧
      d.submit r = (.ok (), d.extended date r)) := by
  cases hdate : parseDate r.dateFiled with
  | none => exact Or.inl ⟨rfl, submit_of_undated hdate⟩
  | some date =>
      by_cases hid : r.id ∈ d.taken
      · exact Or.inr (Or.inl ⟨date, rfl, hid, submit_of_taken hdate hid⟩)
      · exact Or.inr (Or.inr ⟨date, rfl, hid, submit_of_free hdate hid⟩)

theorem add_of_free (hdate : parseDate r.dateFiled = some date) (hfree : r.id ∉ d.taken) :
    d.add r = .ok (d.extended date r) := by
  rw [add, submit_of_free hdate hfree]

/-- A record that is taken up has a date, and an identifier that was free. -/
theorem add_eq_ok (h : d.add r = .ok d') :
    ∃ date, parseDate r.dateFiled = some date ∧ r.id ∉ d.taken ∧ d' = d.extended date r := by
  rcases d.submit_cases r with ⟨-, hsubmit⟩ | ⟨date, -, -, hsubmit⟩ | ⟨date, hdate, hid, hsubmit⟩
  · rw [add, hsubmit] at h
    cases h
  · rw [add, hsubmit] at h
    cases h
  · rw [add, hsubmit] at h
    exact ⟨date, hdate, hid, (Except.ok.inj h).symm⟩

/-! ### Filings and identifiers in step -/

/-- Filings that a docket can hold: their dates are read, and no identifier is taken twice. -/
structure Proper (filings : List Filing) : Prop where
  date : ∀ f ∈ filings, parseDate f.record.dateFiled = some f.date
  nodup : (filingIds filings).Nodup

/-- A docket of which the identifiers that are taken are those of the filings. -/
structure InStep (d : Docket) : Prop where
  proper : Proper d.filings
  taken_eq : d.taken = filingIds d.filings

/-- The records that have been taken up. -/
def records (d : Docket) : List OpinionRecord := d.filings.map Filing.record

theorem inStep_empty : InStep empty := ⟨⟨by simp [empty], List.nodup_nil⟩, rfl⟩

@[simp] theorem records_extended (d : Docket) (date : Date) (r : OpinionRecord) :
    (d.extended date r).records = d.records ++ [r] := by
  simp [records, extended]

namespace InStep

variable (h : d.InStep)
include h

theorem mem_taken_iff {id : OpinionId} : id ∈ d.taken ↔ ∃ r ∈ d.records, r.id = id := by
  simp [h.taken_eq, filingIds, records]

/-- Taking up a record keeps filings and identifiers in step. -/
theorem extended (hdate : parseDate r.dateFiled = some date) (hid : r.id ∉ d.taken) :
    (d.extended date r).InStep := by
  refine ⟨⟨fun f hf => ?_, ?_⟩, ?_⟩
  · rcases List.mem_append.mp hf with hf | hf
    · exact h.proper.date f hf
    · obtain rfl := List.mem_singleton.mp hf
      exact hdate
  · rw [h.taken_eq] at hid
    rw [Docket.extended, filingIds, List.map_append]
    exact List.nodup_append'.mpr ⟨h.proper.nodup, List.nodup_singleton _,
      List.disjoint_singleton.mpr hid⟩
  · rw [Docket.extended, filingIds, List.map_append, h.taken_eq]
    rfl

/-- Handing in a record keeps filings and identifiers in step, whether it is taken up or not. -/
theorem submit (r : OpinionRecord) : (d.submit r).2.InStep := by
  rcases d.submit_cases r with ⟨-, hsubmit⟩ | ⟨date, -, -, hsubmit⟩ | ⟨date, hdate, hid, hsubmit⟩
  · rwa [hsubmit]
  · rwa [hsubmit]
  · rw [hsubmit]
    exact h.extended hdate hid

theorem add (hadd : d.add r = .ok d') : d'.InStep ∧ d'.records = d.records ++ [r] := by
  obtain ⟨date, hdate, hid, rfl⟩ := add_eq_ok hadd
  exact ⟨h.extended hdate hid, records_extended d date r⟩

omit h in
/-- Taking up records one after the other keeps filings and identifiers in step. -/
theorem addAll {records : List OpinionRecord} (h : d.InStep)
    (hadd : d.addAll records = .ok d') :
    d'.InStep ∧ d'.records = d.records ++ records := by
  induction records generalizing d with
  | nil =>
      obtain rfl := Except.ok.inj hadd
      exact ⟨h, (List.append_nil _).symm⟩
  | cons r rest ih =>
      rw [Docket.addAll, List.foldlM_cons] at hadd
      -- A record that is refused ends the run, so this one was taken up.
      cases hfirst : d.add r with
      | error fault =>
          rw [hfirst] at hadd
          cases hadd
      | ok next =>
          rw [hfirst] at hadd
          obtain ⟨hnext, hrecords⟩ := h.add hfirst
          obtain ⟨hlast, hall⟩ := ih hnext hadd
          exact ⟨hlast, by rw [hall, hrecords, List.append_assoc, List.singleton_append]⟩

/-- The chronological order counts citations of the filings. -/
theorem network_eq : d.network =
    if d.filings.isEmpty then .error .emptyDataset else .ok (.ofOpinions (placed d.filings)) := by
  rw [network, h.taken_eq]
  rfl

end InStep

end Docket

/-- A list of records that is accepted gives the network of their filings. -/
theorem ofRecords_eq_ok {records : List OpinionRecord} {g : Network}
    (h : Network.ofRecords records = .ok g) :
    ∃ filings, Docket.Proper filings ∧ filings.map Filing.record = records ∧ filings ≠ [] ∧
      g = .ofOpinions (placed filings) := by
  unfold Network.ofRecords at h
  cases hdocket : Docket.empty.addAll records with
  | error fault =>
      rw [hdocket] at h
      cases h
  | ok docket =>
      rw [hdocket] at h
      change docket.network = .ok g at h
      obtain ⟨hdocket, hrecords⟩ := Docket.inStep_empty.addAll hdocket
      rw [hdocket.network_eq] at h
      by_cases hempty : docket.filings.isEmpty = true
      · rw [if_pos hempty] at h
        cases h
      · rw [if_neg hempty] at h
        exact ⟨docket.filings, hdocket.proper, hrecords, by simpa using hempty,
          (Except.ok.inj h).symm⟩

/-! ### Sorting by a key -/

/-- A list that is sorted by a key is in the order of that key. -/
theorem pairwise_mergeSort_compare {α κ : Type} [Ord κ] [Std.TransOrd κ] (key : α → κ)
    (as : List α) : (as.mergeSort fun a b => (compare (key a) (key b)).isLE).Pairwise
      fun a b => (compare (key a) (key b)).isLE = true := by
  refine List.pairwise_mergeSort (fun _ _ _ => Std.TransCmp.isLE_trans) ?_ as
  intro a b
  have hswap : compare (key b) (key a) = (compare (key a) (key b)).swap :=
    Std.OrientedCmp.eq_swap
  cases hcmp : compare (key a) (key b) <;> simp [hswap, hcmp]

/-! ### Opinions at their places -/

/-- Opinions that stand at their places, no identifier twice. -/
structure WellPlaced (opinions : List Opinion) : Prop where
  index_eq : ∀ {i : Nat} {o : Opinion}, opinions[i]? = some o → o.index = i
  nodup : (opinions.map Opinion.id).Nodup

theorem chronological_perm (filings : List Filing) : (chronological filings).Perm filings := by
  rw [chronological, chronologicalAmong]
  refine ((List.mergeSort_perm _ _).map Prod.snd).trans ?_
  rw [List.map_map]
  simp [Function.comp_def]

/-- The place of a filing is where it stands in the chronological order. -/
theorem placed_eq (filings : List Filing) : placed filings =
    (chronological filings).zipIdx.map fun (f, index) => ⟨index, f.date, f.record⟩ := rfl

@[simp] theorem length_placed (filings : List Filing) :
    (placed filings).length = filings.length := by
  rw [placed_eq, List.length_map, List.length_zipIdx, (chronological_perm filings).length_eq]

theorem getElem?_placed (filings : List Filing) (i : Nat) :
    (placed filings)[i]? = (chronological filings)[i]?.map fun f => ⟨i, f.date, f.record⟩ := by
  rw [placed_eq, List.getElem?_map, List.getElem?_zipIdx, Option.map_map]
  simp [Function.comp_def]

/-- The opinions hold the records of the filings. -/
theorem records_placed (filings : List Filing) :
    ((placed filings).map Opinion.record).Perm (filings.map Filing.record) := by
  have hrecords : (placed filings).map Opinion.record =
      (chronological filings).map Filing.record := by
    apply List.ext_getElem?
    intro i
    rw [List.getElem?_map, getElem?_placed, Option.map_map, List.getElem?_map]
    rfl
  rw [hrecords]
  exact (chronological_perm filings).map _

theorem Docket.Proper.wellPlaced {filings : List Filing} (hproper : Docket.Proper filings) :
    WellPlaced (placed filings) := by
  refine ⟨fun {i o} ho => ?_, ?_⟩
  · rw [getElem?_placed] at ho
    obtain ⟨f, -, rfl⟩ := Option.map_eq_some_iff.mp ho
    rfl
  · have hids : ((placed filings).map Opinion.id).Perm (filingIds filings) := by
      have hperm := (records_placed filings).map OpinionRecord.id
      rwa [List.map_map, List.map_map] at hperm
    exact hids.nodup_iff.mpr hproper.nodup

end Precedent
