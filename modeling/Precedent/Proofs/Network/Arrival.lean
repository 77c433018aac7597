import Precedent.Atlas
import Precedent.Proofs.Network.Acceptance
import Precedent.Proofs.Network.Drawn

/-!
# Precedent.Proofs.Network.Arrival

**The order in which records arrive does not matter.** Filings are sorted by a key that ends with
the identifier, so among filings with different identifiers no two have the same key, and a sorted
list is determined by its members. The key looks at the other filings only to count which of their
identifiers are cited, and that count does not depend on their order either. All else of a network
is made from the sorted list.
-/

namespace Precedent

/-! ### Sorting by chronology -/

/-- The count of resolved citations looks only at which identifiers are there. -/
theorem OpinionRecord.resolvedCount_congr {ids ids' : List OpinionId}
    (h : ∀ id, id ∈ ids ↔ id ∈ ids') (r : OpinionRecord) :
    r.resolvedCount ids = r.resolvedCount ids' := by
  simp [resolvedCount, h]

/-- Filings, each with what places it among those with the given identifiers. -/
def keyed (ids : List OpinionId) (filings : List Filing) : List (Chronology × Filing) :=
  filings.map fun f => (f.chronology ids, f)

/-- No filing is placed after one that it comes before. -/
def NotAfter (a b : Chronology × Filing) : Prop := (compare a.1 b.1).isLE = true

/-- Of filings with different identifiers no two have the same key. -/
theorem eq_of_notAfter {ids : List OpinionId} {filings : List Filing}
    (hnodup : (filingIds filings).Nodup) {a b : Chronology × Filing} (ha : a ∈ keyed ids filings)
    (hb : b ∈ keyed ids filings) (hab : NotAfter a b) (hba : NotAfter b a) : a = b := by
  obtain ⟨f, hf, rfl⟩ := List.mem_map.mp ha
  obtain ⟨f', hf', rfl⟩ := List.mem_map.mp hb
  have hkey : f.chronology ids = f'.chronology ids :=
    Std.LawfulEqOrd.eq_of_compare (Std.OrientedCmp.isLE_antisymm hab hba)
  have hid : f.record.id = f'.record.id := congrArg Chronology.id hkey
  rw [List.inj_on_of_nodup_map hnodup hf hf' hid]

/-- The chronological order of filings does not depend on the order in which they are given. -/
theorem chronological_congr {filings filings' : List Filing} (h : filings.Perm filings')
    (hnodup : (filingIds filings).Nodup) : chronological filings = chronological filings' := by
  have hids : ∀ id, id ∈ filingIds filings' ↔ id ∈ filingIds filings := fun id =>
    (h.map _).symm.mem_iff
  have hkeys : keyed (filingIds filings') filings' = keyed (filingIds filings) filings' := by
    refine List.map_congr_left fun f _ => ?_
    simp [Filing.chronology, OpinionRecord.resolvedCount_congr hids]
  have hperm : (keyed (filingIds filings) filings).Perm (keyed (filingIds filings) filings') :=
    h.map _
  show ((keyed (filingIds filings) filings).mergeSort _).map Prod.snd =
    ((keyed (filingIds filings') filings').mergeSort _).map Prod.snd
  rw [hkeys]
  refine congrArg (List.map Prod.snd) (List.Perm.eq_of_pairwise ?_
    (pairwise_mergeSort_compare Prod.fst _) (pairwise_mergeSort_compare Prod.fst _) ?_)
  · intro a b ha hb hab hba
    rw [List.mem_mergeSort] at ha hb
    exact eq_of_notAfter hnodup ha (hperm.mem_iff.mpr hb) hab hba
  · exact ((List.mergeSort_perm _ _).trans hperm).trans (List.mergeSort_perm _ _).symm

/-! ### Networks -/

namespace Acceptable

variable {records records' : List OpinionRecord}

/-- The network of acceptable records does not depend on their order. -/
theorem ofRecords_perm_eq (h : Acceptable records) (hperm : records.Perm records') :
    Network.ofRecords records' = Network.ofRecords records := by
  have hnodup : (filingIds (filingsOf records)).Nodup := h.filingIds_filingsOf ▸ h.nodup
  have hfilings : (filingsOf records).Perm (filingsOf records') := hperm.filterMap _
  rw [h.ofRecords_eq, (h.perm hperm).ofRecords_eq, placed_eq, placed_eq,
    chronological_congr hfilings hnodup]

end Acceptable

namespace Network

/-- **The order of the records does not matter.** Any two orders of a list of records are both
refused, or they give one and the same network, and with it the same distances, degrees, parents and
loops. -/
theorem ofRecords_perm {records records' : List OpinionRecord} (h : records.Perm records') :
    (∃ g, ofRecords records = .ok g ∧ ofRecords records' = .ok g ∧
      ∀ settings, Atlas.build records settings = .ok (.ofNetwork g settings) ∧
        Atlas.build records' settings = .ok (.ofNetwork g settings)) ∨
    (∃ fault fault', ofRecords records = .error fault ∧ ofRecords records' = .error fault' ∧
      ∀ settings, Atlas.build records settings = .error fault ∧
        Atlas.build records' settings = .error fault') := by
  cases hg : ofRecords records with
  | ok g =>
      have hg' : ofRecords records' = .ok g := by
        rw [(acceptable_of_ofRecords hg).ofRecords_perm_eq h, hg]
      refine Or.inl ⟨g, rfl, hg', fun settings => ⟨?_, ?_⟩⟩
      · rw [Atlas.build, hg]
        rfl
      · rw [Atlas.build, hg']
        rfl
  | error fault =>
      cases hg' : ofRecords records' with
      | ok g =>
          -- What is accepted in one order is accepted in the other.
          rw [(acceptable_of_ofRecords hg').ofRecords_perm_eq h.symm, hg'] at hg
          cases hg
      | error fault' =>
          refine Or.inr ⟨fault, fault', rfl, rfl, fun settings => ⟨?_, ?_⟩⟩
          · rw [Atlas.build, hg]
            rfl
          · rw [Atlas.build, hg']
            rfl

theorem ofRecords_reverse_fiveRecords : fiveRecords.Perm fiveRecords.reverse ∧
    ∃ g, ofRecords fiveRecords = .ok g ∧ ofRecords fiveRecords.reverse = .ok g := by
  have hperm : fiveRecords.Perm fiveRecords.reverse := fiveRecords.reverse_perm.symm
  obtain ⟨g, hok, -⟩ := exists_ok_of_map_toOption (x := ofRecords fiveRecords) (f := Network.size)
    (b := 5) (by cbv)
  rcases ofRecords_perm hperm with ⟨g', hg, hg', -⟩ | ⟨fault, -, hrefused, -⟩
  · exact ⟨hperm, g', hg, hg'⟩
  · rw [hok] at hrefused
    cases hrefused

end Network

end Precedent
