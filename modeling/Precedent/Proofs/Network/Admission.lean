import Precedent.Proofs.Network.Acceptance

/-!
# Precedent.Proofs.Network.Admission

**A record that is refused leaves no trace.** Records can be handed in one after the other, going on
after each that is refused. What a docket says to the next record then depends on the records that
it has accepted, and on nothing else (`Reflects`): a record that was refused for its date has not
taken its identifier. In the end the network is that of the accepted records alone. A list that is
taken up as a whole stops at the first record that would be refused, and reports that fault.
-/

namespace Precedent

namespace Docket

/-! ### Handing in several records -/

/-- The docket after some records have been handed in. -/
def after (d : Docket) : List OpinionRecord → Docket
  | [] => d
  | r :: rest => (d.submit r).2.after rest

/-- What is said to records that are handed in one after the other. -/
def answers (d : Docket) : List OpinionRecord → List (Except Fault Unit)
  | [] => []
  | r :: rest => (d.submit r).1 :: (d.submit r).2.answers rest

/-- The records that are accepted, of those handed in one after the other. -/
def accepted (d : Docket) (records : List OpinionRecord) : List OpinionRecord :=
  ((records.zip (d.answers records)).filter fun p => p.2.toBool).map Prod.fst

/-- The fault for which the first record is refused. -/
def firstRefusal? (answers : List (Except Fault Unit)) : Option Fault :=
  answers.findSome? fun
    | .error fault => some fault
    | .ok _ => none

variable {d : Docket} {r : OpinionRecord} {fault : Fault}

theorem accepted_cons (d : Docket) (r : OpinionRecord) (rest : List OpinionRecord) :
    d.accepted (r :: rest) =
      (if (d.submit r).1.toBool then [r] else []) ++ (d.submit r).2.accepted rest := by
  rw [accepted, answers, List.zip_cons_cons, List.filter_cons]
  split
  · rfl
  · rfl

/-- A record that is refused leaves the docket as it was. -/
theorem submit_of_error (h : (d.submit r).1 = .error fault) : (d.submit r).2 = d := by
  rcases d.submit_cases r with ⟨-, hsubmit⟩ | ⟨date, -, -, hsubmit⟩ | ⟨date, -, -, hsubmit⟩
  · rw [hsubmit]
  · rw [hsubmit]
  · rw [hsubmit] at h
    cases h

/-- The records of a docket are those that it has accepted. -/
theorem records_submit (d : Docket) (r : OpinionRecord) :
    (d.submit r).2.records = d.records ++ if (d.submit r).1.toBool then [r] else [] := by
  rcases d.submit_cases r with ⟨-, hsubmit⟩ | ⟨date, -, -, hsubmit⟩ | ⟨date, -, -, hsubmit⟩
  · simp [hsubmit, Except.toBool]
  · simp [hsubmit, Except.toBool]
  · simp [hsubmit, Except.toBool]

theorem records_after (d : Docket) (records : List OpinionRecord) :
    (d.after records).records = d.records ++ d.accepted records := by
  induction records generalizing d with
  | nil => simp [after, accepted]
  | cons r rest ih => rw [after, ih, records_submit, accepted_cons, List.append_assoc]

theorem InStep.after (h : d.InStep) (records : List OpinionRecord) : (d.after records).InStep := by
  induction records generalizing d with
  | nil => exact h
  | cons r rest ih => exact ih (h.submit r)

/-- Taking up a list as a whole stops at the first record that would be refused. -/
theorem addAll_eq (d : Docket) (records : List OpinionRecord) :
    d.addAll records =
      match firstRefusal? (d.answers records) with
      | some fault => .error fault
      | none => .ok (d.after records) := by
  induction records generalizing d with
  | nil => rfl
  | cons r rest ih =>
      rw [addAll, List.foldlM_cons, add, answers, after, firstRefusal?, List.findSome?_cons]
      rcases hsubmit : d.submit r with ⟨answer, d'⟩
      cases answer with
      | error fault => rfl
      | ok u => exact ih d'

/-! ### The network of what has been accepted -/

/-- The filings of a docket are those of its records. -/
theorem Proper.filingsOf_eq {filings : List Filing} (h : Proper filings) :
    filingsOf (filings.map Filing.record) = filings := by
  rw [filingsOf, List.filterMap_map]
  refine (List.filterMap_congr fun f hf => ?_).trans (List.filterMap_some ..)
  simp [h.date f hf]

theorem InStep.acceptable (h : d.InStep) (hne : d.records ≠ []) : Acceptable d.records where
  ne_nil := hne
  dated := by
    intro r hr
    obtain ⟨f, hf, rfl⟩ := List.mem_map.mp hr
    exact ⟨f.date, h.proper.date f hf⟩
  nodup := by
    have hnodup := h.proper.nodup
    rwa [records, List.map_map]

theorem InStep.network_eq_ofRecords (h : d.InStep) : d.network = Network.ofRecords d.records := by
  rw [h.network_eq]
  by_cases hempty : d.filings = []
  · rw [records, hempty]
    rfl
  · have hne : d.records ≠ [] := by simpa [records] using hempty
    rw [(h.acceptable hne).ofRecords_eq, records, h.proper.filingsOf_eq,
      if_neg (by simpa using hempty)]

/-- What a docket does next is decided by the records that it has accepted. -/
structure Reflects (d : Docket) (accepted : List OpinionRecord) : Prop where
  /-- A record is accepted if its date can be read and no accepted record has its identifier. -/
  submit_eq_ok_iff : ∀ r, (d.submit r).1 = .ok () ↔
    (∃ date, parseDate r.dateFiled = some date) ∧ ∀ r' ∈ accepted, r'.id ≠ r.id
  /-- A date that cannot be read is reported, whether the identifier is free or not. -/
  submit_of_undated : ∀ r, parseDate r.dateFiled = none →
    (d.submit r).1 = .error (.invalidDate r.id r.dateFiled)
  /-- Otherwise the identifier is reported, if an accepted record has it. -/
  submit_of_repeated : ∀ r date, parseDate r.dateFiled = some date →
    (∃ r' ∈ accepted, r'.id = r.id) → (d.submit r).1 = .error (.duplicateOpinion r.id)
  /-- A record that is refused leaves the docket as it was. -/
  submit_of_error : ∀ r fault, (d.submit r).1 = .error fault → (d.submit r).2 = d
  /-- The network is that of the accepted records in their order. -/
  network_eq : d.network = Network.ofRecords accepted
  network_of_nil : accepted = [] → d.network = .error .emptyDataset

theorem InStep.reflects (h : d.InStep) : d.Reflects d.records where
  submit_eq_ok_iff := by
    intro r
    rcases d.submit_cases r with ⟨hdate, hsubmit⟩ | ⟨date, hdate, hid, hsubmit⟩ |
      ⟨date, hdate, hid, hsubmit⟩
    · simp [hsubmit, hdate]
    · obtain ⟨r', hr', heq⟩ := h.mem_taken_iff.mp hid
      rw [hsubmit]
      exact iff_of_false (by simp) fun hboth => hboth.2 r' hr' heq
    · rw [h.mem_taken_iff] at hid
      push Not at hid
      rw [hsubmit]
      exact iff_of_true rfl ⟨⟨date, hdate⟩, hid⟩
  submit_of_undated := by
    intro r hdate
    rw [Docket.submit_of_undated hdate]
  submit_of_repeated := by
    intro r date hdate hrepeated
    rw [submit_of_taken hdate (h.mem_taken_iff.mpr hrepeated)]
  submit_of_error := fun _ _ => Docket.submit_of_error
  network_eq := h.network_eq_ofRecords
  network_of_nil := by
    intro hnil
    rw [h.network_eq_ofRecords, hnil]
    rfl

/-! ### Whole lists -/

theorem answers_append (d : Docket) (before : List OpinionRecord) (r : OpinionRecord)
    (later : List OpinionRecord) :
    d.answers (before ++ r :: later) = d.answers before ++
      ((d.after before).submit r).1 :: ((d.after before).submit r).2.answers later := by
  induction before generalizing d with
  | nil => rfl
  | cons r' rest ih => rw [List.cons_append, answers, ih, answers, List.cons_append, after]

@[simp] theorem length_answers (d : Docket) (records : List OpinionRecord) :
    (d.answers records).length = records.length := by
  induction records generalizing d with
  | nil => rfl
  | cons r rest ih => rw [answers, List.length_cons, ih, List.length_cons]

/-- If no record is refused, all are accepted. -/
theorem accepted_eq_self {records : List OpinionRecord}
    (h : firstRefusal? (d.answers records) = none) : d.accepted records = records := by
  induction records generalizing d with
  | nil => rfl
  | cons r rest ih =>
      rw [answers, firstRefusal?, List.findSome?_cons] at h
      rw [accepted_cons]
      cases hanswer : (d.submit r).1 with
      | error fault =>
          rw [hanswer] at h
          cases h
      | ok u =>
          rw [hanswer] at h
          rw [ih h]
          rfl

/-- Records that are handed in one after the other, and the same records taken up as a whole. -/
structure AdmitsInTurn (records : List OpinionRecord) : Prop where
  /-- What is said to a record is decided by those that were accepted before it. -/
  answer : ∀ before r later, records = before ++ r :: later →
    (empty.after before).Reflects (empty.accepted before) ∧
      (empty.answers records)[before.length]? = some ((empty.after before).submit r).1
  /-- The docket in the end reflects all that were accepted. -/
  reflects : (empty.after records).Reflects (empty.accepted records)
  /-- The list as a whole fails with the fault of the first record that is refused. -/
  ofRecords_of_refusal : ∀ fault, firstRefusal? (empty.answers records) = some fault →
    Network.ofRecords records = .error fault
  /-- If no record is refused the network is built, unless there are no records. -/
  ofRecords_of_no_refusal : firstRefusal? (empty.answers records) = none → records ≠ [] →
    ∃ g, Network.ofRecords records = .ok g
  ofRecords_of_nil : records = [] → Network.ofRecords records = .error .emptyDataset

/-- **Records that are refused leave no trace**, neither in what is said to later records nor in the
network. -/
theorem submissions_admitInTurn (records : List OpinionRecord) : AdmitsInTurn records where
  answer := by
    intro before r later hsplit
    have hinStep := inStep_empty.after before
    refine ⟨?_, ?_⟩
    · have hreflects := hinStep.reflects
      rwa [records_after] at hreflects
    · rw [hsplit, answers_append, ← length_answers empty before,
        List.getElem?_append_right (Nat.le_refl _), Nat.sub_self, List.getElem?_cons_zero]
  reflects := by
    have hreflects := (inStep_empty.after records).reflects
    rwa [records_after] at hreflects
  ofRecords_of_refusal := by
    intro fault hrefused
    rw [Network.ofRecords, addAll_eq, hrefused]
    rfl
  ofRecords_of_no_refusal := by
    intro hnone hne
    have hrecords := records_after empty records
    rw [accepted_eq_self hnone] at hrecords
    change _ = records at hrecords
    have hacceptable := (inStep_empty.after records).acceptable (by rwa [hrecords])
    rw [hrecords] at hacceptable
    exact ⟨_, hacceptable.ofRecords_eq⟩
  ofRecords_of_nil := by
    rintro rfl
    rfl

/-- The first record is refused for its date, and its identifier stays free for the second one. -/
example : (empty.answers [.new (.number 1) "January 1900", .new (.number 1) "1900-01-01",
    .new (.number 1) "1901-01-01"]).map Except.toBool = [false, true, false] := by cbv

end Docket

end Precedent
