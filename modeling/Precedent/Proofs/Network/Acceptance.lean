import Precedent.Proofs.Network.Docket

/-!
# Precedent.Proofs.Network.Acceptance

**Which lists of records are accepted.** A network can be built when there is a record, every filing
date can be read and no identifier is taken twice, and in no other case (`ofRecords_eq_ok_iff`). The
condition does not speak of the order of the records, while the fault that is reported does: it is
that of the first record that is refused.
-/

namespace Precedent

/-- Records that a network can be built from. -/
structure Acceptable (records : List OpinionRecord) : Prop where
  ne_nil : records ≠ []
  dated : ∀ r ∈ records, ∃ date, parseDate r.dateFiled = some date
  nodup : (records.map OpinionRecord.id).Nodup

/-- The filings of the records whose dates can be read. -/
def filingsOf (records : List OpinionRecord) : List Filing :=
  records.filterMap fun r => (parseDate r.dateFiled).map fun date => ⟨date, r⟩

@[simp] theorem filingsOf_nil : filingsOf [] = [] := rfl

theorem filingsOf_cons {r : OpinionRecord} {date : Date} (h : parseDate r.dateFiled = some date)
    (records : List OpinionRecord) : filingsOf (r :: records) = ⟨date, r⟩ :: filingsOf records := by
  simp [filingsOf, h]

/-- Records whose dates can be read have one filing each. -/
theorem map_record_filingsOf {records : List OpinionRecord}
    (h : ∀ r ∈ records, ∃ date, parseDate r.dateFiled = some date) :
    (filingsOf records).map Filing.record = records := by
  induction records with
  | nil => rfl
  | cons r rest ih =>
      obtain ⟨date, hdate⟩ := h r (List.mem_cons_self ..)
      rw [filingsOf_cons hdate, List.map_cons, ih fun r' hr' => h r' (List.mem_cons_of_mem _ hr')]

/-- Records are taken up as long as they have dates and their identifiers are free. -/
theorem Docket.addAll_of_free {records : List OpinionRecord} {d : Docket}
    (hdated : ∀ r ∈ records, ∃ date, parseDate r.dateFiled = some date)
    (hfree : (d.taken ++ records.map OpinionRecord.id).Nodup) :
    d.addAll records =
      .ok ⟨d.filings ++ filingsOf records, d.taken ++ records.map OpinionRecord.id⟩ := by
  induction records generalizing d with
  | nil => simp [addAll, pure, Except.pure]
  | cons r rest ih =>
      obtain ⟨date, hdate⟩ := hdated r (List.mem_cons_self ..)
      rw [List.map_cons, List.append_cons] at hfree
      have hr : r.id ∉ d.taken := by
        have hfirst := (List.nodup_append.mp hfree).1
        rw [← List.concat_eq_append, List.nodup_concat] at hfirst
        exact hfirst.1
      rw [addAll, List.foldlM_cons, add_of_free hdate hr]
      show addAll (d.extended date r) rest = _
      rw [ih (fun r' hr' => hdated r' (List.mem_cons_of_mem _ hr')) hfree, filingsOf_cons hdate]
      simp [extended]

namespace Acceptable

variable {records records' : List OpinionRecord}

theorem filingIds_filingsOf (h : Acceptable records) :
    filingIds (filingsOf records) = records.map OpinionRecord.id := by
  have hrecords := congrArg (List.map OpinionRecord.id) (map_record_filingsOf h.dated)
  rwa [List.map_map] at hrecords

/-- Acceptable records are accepted. -/
theorem ofRecords_eq (h : Acceptable records) :
    Network.ofRecords records = .ok (.ofOpinions (placed (filingsOf records))) := by
  have hdocket : Docket.empty.addAll records =
      .ok ⟨filingsOf records, records.map OpinionRecord.id⟩ :=
    Docket.addAll_of_free h.dated (by simpa [Docket.empty] using h.nodup)
  obtain ⟨hinStep, -⟩ := Docket.inStep_empty.addAll hdocket
  have hne : (filingsOf records).isEmpty = false := by
    rw [List.isEmpty_eq_false_iff]
    intro hnil
    have hrecords := map_record_filingsOf h.dated
    rw [hnil] at hrecords
    exact h.ne_nil hrecords.symm
  rw [Network.ofRecords, hdocket]
  show Docket.network ⟨filingsOf records, _⟩ = _
  rw [hinStep.network_eq, if_neg (by simp [hne])]

/-- Whether records are acceptable does not depend on their order. -/
theorem perm (h : Acceptable records) (hperm : records.Perm records') : Acceptable records' where
  ne_nil := fun hnil => h.ne_nil (hperm.trans (.of_eq hnil)).eq_nil
  dated := fun r hr => h.dated r (hperm.mem_iff.mpr hr)
  nodup := (hperm.map OpinionRecord.id).nodup_iff.mp h.nodup

end Acceptable

theorem acceptable_of_ofRecords {records : List OpinionRecord} {g : Network}
    (h : Network.ofRecords records = .ok g) : Acceptable records := by
  obtain ⟨filings, hproper, rfl, hne, -⟩ := ofRecords_eq_ok h
  refine ⟨by simpa using hne, fun r hr => ?_, ?_⟩
  · obtain ⟨f, hf, rfl⟩ := List.mem_map.mp hr
    exact ⟨f.date, hproper.date f hf⟩
  · rw [List.map_map]
    exact hproper.nodup

/-- **Acceptable records are accepted, and no others.** -/
theorem ofRecords_eq_ok_iff {records : List OpinionRecord} {g : Network} :
    Network.ofRecords records = .ok g ↔
      Acceptable records ∧ g = .ofOpinions (placed (filingsOf records)) := by
  constructor
  · intro h
    have hok := acceptable_of_ofRecords h
    exact ⟨hok, Except.ok.inj (h.symm.trans hok.ofRecords_eq)⟩
  · rintro ⟨hok, rfl⟩
    exact hok.ofRecords_eq

end Precedent
