import Mathlib.Data.List.Forall2
import Precedent.Proofs.Network.Arrival

/-!
# Precedent.Proofs.Network.Unresolved

**Citations that lead nowhere have no say in a network.** Two records may differ in what they cite
of themselves and of opinions that are not in the set (`OpinionRecord.SameResolved`). Lists of such
records are refused for the same fault, or they give networks that differ in no more than the stored
records and the two counts of such citations (`Network.SameResolved`): the records are placed in the
same order, since their keys are equal, and at the same places they cite the same opinions.
-/

namespace Precedent

/-- Two computations that end with the same fault, or with results that are related. -/
inductive SameOutcome {ε α β : Type} (R : α → β → Prop) : Except ε α → Except ε β → Prop where
  | refused (fault : ε) : SameOutcome R (.error fault) (.error fault)
  | accepted {a : α} {b : β} : R a b → SameOutcome R (.ok a) (.ok b)

namespace SameOutcome

variable {ε α β α' β' : Type} {R : α → β → Prop} {S : α' → β' → Prop} {x : Except ε α}
  {y : Except ε β}

/-- Related results may be computed with, each in its own way. -/
theorem bind (h : SameOutcome R x y) {k : α → Except ε α'} {k' : β → Except ε β'}
    (hk : ∀ a b, x = .ok a → y = .ok b → R a b → SameOutcome S (k a) (k' b)) :
    SameOutcome S (x >>= k) (y >>= k') := by
  cases h with
  | refused fault => exact .refused fault
  | accepted hab => exact hk _ _ rfl rfl hab

theorem map (h : SameOutcome R x y) {f : α → α'} {f' : β → β'}
    (hf : ∀ a b, R a b → S (f a) (f' b)) : SameOutcome S (x.map f) (y.map f') := by
  cases h with
  | refused fault => exact .refused fault
  | accepted hab => exact .accepted (hf _ _ hab)

end SameOutcome

/-! ### Records, filings and opinions -/

/-- Two records that differ in no more than citations that lead nowhere: to the record itself, or to
an opinion that is not among those with the given identifiers. -/
structure OpinionRecord.SameResolved (ids : List OpinionId) (r r' : OpinionRecord) : Prop where
  /-- Nothing but the citations differs. -/
  rest : r' = { r with cited := r'.cited }
  /-- The other opinions of the set are cited alike, with the same opacities. -/
  resolved : ∀ id ∈ ids, id ≠ r.id →
    Entries.get? id r'.cited.entries = Entries.get? id r.cited.entries

/-- Filings of one day with such records. -/
structure Filing.SameResolved (ids : List OpinionId) (f f' : Filing) : Prop where
  date : f'.date = f.date
  record : f.record.SameResolved ids f'.record

/-- Opinions at one place with such records. -/
structure Opinion.SameResolved (ids : List OpinionId) (o o' : Opinion) : Prop where
  index : o'.index = o.index
  date : o'.date = o.date
  record : o.record.SameResolved ids o'.record

/-- What is cited has an entry. -/
theorem Citations.mem_ids {c : Citations} {id : OpinionId} :
    id ∈ c.ids ↔ ∃ opacity, Entries.get? id c.entries = some opacity := by
  simp only [Entries.get?_eq_some_iff c.increasing]
  simp [ids]

namespace OpinionRecord.SameResolved

variable {ids : List OpinionId} {r r' : OpinionRecord} (h : r.SameResolved ids r')
include h

theorem id_eq : r'.id = r.id := by rw [h.rest]

theorem dateFiled_eq : r'.dateFiled = r.dateFiled := by rw [h.rest]

theorem symm : r'.SameResolved ids r where
  rest := by
    rw [h.rest]
  resolved := by
    intro id hid hne
    rw [h.id_eq] at hne
    exact (h.resolved id hid hne).symm

variable {id : OpinionId} (hid : id ∈ ids) (hne : id ≠ r.id)
include hid hne

theorem mem_ids_iff : id ∈ r.cited.ids ↔ id ∈ r'.cited.ids := by
  rw [Citations.mem_ids, Citations.mem_ids, h.resolved id hid hne]

theorem opacity?_eq : r'.cited.opacity? id = r.cited.opacity? id := by
  rw [Citations.opacity?, h.resolved id hid hne, Citations.opacity?]

omit hid hne in
/-- Both records cite as many other opinions of the set. -/
theorem resolvedCount_eq : r'.resolvedCount ids = r.resolvedCount ids := by
  refine List.Perm.length_eq ((List.perm_ext_iff_of_nodup (r'.cited.nodup_ids.filter _)
    (r.cited.nodup_ids.filter _)).mpr fun id => ?_)
  simp only [List.mem_filter, Bool.and_eq_true, bne_iff_ne, List.contains_iff_mem, h.id_eq]
  exact and_congr_left fun hother => (h.mem_ids_iff hother.2 hother.1).symm

end OpinionRecord.SameResolved

/-! ### Dockets -/

section Filings

variable {ids : List OpinionId} {filings filings' : List Filing}

theorem filingIds_eq (h : List.Forall₂ (Filing.SameResolved ids) filings filings') :
    filingIds filings' = filingIds filings := by
  induction h with
  | nil => rfl
  | cons hf _ ih => exact congrArg₂ List.cons hf.record.id_eq ih

/-- Two dockets that have taken the same identifiers, with such filings. -/
structure Docket.SameResolved (ids : List OpinionId) (d d' : Docket) : Prop where
  filings : List.Forall₂ (Filing.SameResolved ids) d.filings d'.filings
  taken : d'.taken = d.taken

/-- A record is taken up alike, or refused alike. -/
theorem Docket.add_sameResolved {d d' : Docket} {r r' : OpinionRecord}
    (h : d.SameResolved ids d') (hr : r.SameResolved ids r') :
    SameOutcome (Docket.SameResolved ids) (d.add r) (d'.add r') := by
  unfold add submit reserve
  rw [hr.dateFiled_eq, h.taken, hr.id_eq]
  cases parseDate r.dateFiled with
  | none => exact .refused _
  | some date =>
      dsimp only
      by_cases hid : d.taken.contains r.id = true
      · rw [if_pos hid, if_pos hid]
        exact .refused _
      · rw [if_neg hid, if_neg hid]
        exact .accepted ⟨List.rel_append h.filings (.cons ⟨rfl, hr⟩ .nil), rfl⟩

/-- Records are taken up alike, one after the other, until one is refused in both lists. -/
theorem Docket.addAll_sameResolved {records records' : List OpinionRecord} {d d' : Docket}
    (h : d.SameResolved ids d')
    (hrecords : List.Forall₂ (OpinionRecord.SameResolved ids) records records') :
    SameOutcome (Docket.SameResolved ids) (d.addAll records) (d'.addAll records') := by
  induction hrecords generalizing d d' with
  | nil => exact .accepted h
  | cons hr _ ih =>
      rw [addAll, addAll, List.foldlM_cons, List.foldlM_cons]
      exact (add_sameResolved h hr).bind fun e e' _ _ hdockets => ih hdockets

/-! ### Chronological order -/

/-- Filings that are read off other things are sorted by what places those things. -/
theorem chronological_map {α : Type} (as : List α) (filing : α → Filing) (key : α → Chronology)
    (hkey : ∀ a ∈ as, (filing a).chronology (filingIds (as.map filing)) = key a) :
    chronological (as.map filing) =
      (as.mergeSort fun a b => (compare (key a) (key b)).isLE).map filing := by
  show (((as.map filing).map fun f => (f.chronology (filingIds (as.map filing)), f)).mergeSort
    _).map Prod.snd = _
  rw [List.map_map, ← List.map_mergeSort (r := fun a b => (compare (key a) (key b)).isLE),
    List.map_map]
  · rfl
  · intro a ha b hb
    simp only [Function.comp_apply, hkey a ha, hkey b hb]

/-- The filings are sorted alike. -/
theorem chronological_sameResolved
    (h : List.Forall₂ (Filing.SameResolved (filingIds filings)) filings filings') :
    List.Forall₂ (Filing.SameResolved (filingIds filings)) (chronological filings)
      (chronological filings') := by
  have hids := filingIds_eq h
  -- The pairs of related filings are sorted by the keys, which both filings of a pair have.
  obtain ⟨hlength, hpairs⟩ := List.forall₂_iff_zip.mp h
  have hfst : (filings.zip filings').map Prod.fst = filings :=
    List.map_fst_zip (Nat.le_of_eq hlength)
  have hsnd : (filings.zip filings').map Prod.snd = filings' :=
    List.map_snd_zip (Nat.le_of_eq hlength.symm)
  have hleft := chronological_map (filings.zip filings') Prod.fst
    (fun p => p.1.chronology (filingIds filings)) fun p _ => by rw [hfst]
  have hright := chronological_map (filings.zip filings') Prod.snd
    (fun p => p.1.chronology (filingIds filings)) fun p hp => by
      have hp' : p.1.SameResolved (filingIds filings) p.2 := hpairs hp
      rw [hsnd, hids, Filing.chronology, Filing.chronology, hp'.date,
        hp'.record.resolvedCount_eq, hp'.record.id_eq]
  rw [hfst] at hleft
  rw [hsnd] at hright
  rw [hleft, hright, List.forall₂_map_left_iff, List.forall₂_map_right_iff, List.forall₂_same]
  exact fun p hp => hpairs (List.mem_mergeSort.mp hp)

theorem forall₂_zipIdx (h : List.Forall₂ (Filing.SameResolved ids) filings filings') (n : Nat) :
    List.Forall₂ (Opinion.SameResolved ids)
      ((filings.zipIdx n).map fun (f, index) => ⟨index, f.date, f.record⟩)
      ((filings'.zipIdx n).map fun (f, index) => ⟨index, f.date, f.record⟩) := by
  induction h generalizing n with
  | nil => exact .nil
  | cons hf _ ih => exact .cons ⟨rfl, hf.date, hf.record⟩ (ih (n + 1))

/-- The filings are placed alike. -/
theorem placed_sameResolved
    (h : List.Forall₂ (Filing.SameResolved (filingIds filings)) filings filings') :
    List.Forall₂ (Opinion.SameResolved (filingIds filings)) (placed filings) (placed filings') :=
  forall₂_zipIdx (chronological_sameResolved h) 0

end Filings

/-! ### Networks -/

theorem exists_getElem?_of_forall₂ {α β : Type} {R : α → β → Prop} {as : List α} {bs : List β}
    (h : List.Forall₂ R as bs) {i : Nat} {a : α} (ha : as[i]? = some a) :
    ∃ b, bs[i]? = some b ∧ R a b := by
  induction h generalizing i with
  | nil => simp at ha
  | @cons a' b' _ _ hab _ ih =>
      cases i with
      | zero =>
          obtain rfl := Option.some.inj ha
          exact ⟨b', rfl, hab⟩
      | succ i => exact ih ha

section Opinions

variable {opinions opinions' : List Opinion}

theorem map_id_eq {ids : List OpinionId}
    (h : List.Forall₂ (Opinion.SameResolved ids) opinions opinions') :
    opinions'.map Opinion.id = opinions.map Opinion.id := by
  induction h with
  | nil => rfl
  | cons ho _ ih => exact congrArg₂ List.cons ho.record.id_eq ih

theorem forall₂_symm {ids : List OpinionId}
    (h : List.Forall₂ (Opinion.SameResolved ids) opinions opinions') :
    List.Forall₂ (Opinion.SameResolved ids) opinions' opinions :=
  .flip (h.imp fun _ _ ho => ⟨ho.index.symm, ho.date.symm, ho.record.symm⟩)

/-- What is cited among the opinions of the set is cited there. -/
theorem cites_of_sameResolved (hplaced : WellPlaced opinions)
    (h : List.Forall₂ (Opinion.SameResolved (opinions.map Opinion.id)) opinions opinions')
    {i j : Nat} (hcites : (Citing.ofOpinions opinions).cites i j = true) :
    (Citing.ofOpinions opinions').cites i j = true := by
  rw [Citing.ofOpinions_cites_iff] at hcites ⊢
  obtain ⟨hne, a, b, ha, hb, hid⟩ := hcites
  obtain ⟨a', ha', hsame⟩ := exists_getElem?_of_forall₂ h ha
  obtain ⟨b', hb', hsame'⟩ := exists_getElem?_of_forall₂ h hb
  have hmem : b.id ∈ opinions.map Opinion.id := List.mem_map_of_mem (List.mem_of_getElem? hb)
  have hother : b.id ≠ a.id := by
    intro heq
    have hsameOpinion := hplaced.eq_of_id (List.mem_of_getElem? hb) (List.mem_of_getElem? ha) heq
    exact hne (by rw [← hplaced.index_eq ha, ← hplaced.index_eq hb, hsameOpinion])
  refine ⟨hne, a', b', ha', hb', ?_⟩
  have hb'id : b'.id = b.id := hsame'.record.id_eq
  rw [hb'id]
  exact (hsame.record.mem_ids_iff hmem hother).mp hid

/-- The same opinions cite each other. -/
theorem ofOpinions_citing_eq (hplaced : WellPlaced opinions) (hplaced' : WellPlaced opinions')
    (h : List.Forall₂ (Opinion.SameResolved (opinions.map Opinion.id)) opinions opinions') :
    Citing.ofOpinions opinions' = Citing.ofOpinions opinions := by
  have hback := forall₂_symm h
  rw [← map_id_eq h] at hback
  refine Citing.ext h.length_eq.symm (funext₂ fun i j => Bool.eq_iff_iff.mpr ⟨?_, ?_⟩)
  · exact cites_of_sameResolved hplaced' hback
  · exact cites_of_sameResolved hplaced h

theorem idAt_eq {ids : List OpinionId}
    (h : List.Forall₂ (Opinion.SameResolved ids) opinions opinions') :
    Citing.idAt opinions' = Citing.idAt opinions := by
  have hid : ∀ (os : List Opinion) (i : Nat),
      Citing.idAt os i = ((os.map Opinion.id)[i]?).getD default := by
    intro os i
    rw [Citing.idAt, List.getElem?_map]
    cases os[i]? <;> rfl
  funext i
  rw [hid, hid, map_id_eq h]

end Opinions

/-- Two networks that differ in no more than the stored records and the counts of citations that
lead nowhere. -/
structure Network.SameResolved (g g' : Network) : Prop where
  opinions : List.Forall₂ (Opinion.SameResolved (g.opinions.toList.map Opinion.id))
    g.opinions.toList g'.opinions.toList
  cites : g'.cites = g.cites
  citedBy : g'.citedBy = g.citedBy
  links : g'.links = g.links
  folded : g'.tally.folded = g.tally.folded

/-- Networks of opinions that are placed alike. -/
theorem Network.ofOpinions_sameResolved {opinions opinions' : List Opinion}
    (hplaced : WellPlaced opinions) (hplaced' : WellPlaced opinions')
    (h : List.Forall₂ (Opinion.SameResolved (opinions.map Opinion.id)) opinions opinions') :
    (ofOpinions opinions).SameResolved (ofOpinions opinions') where
  opinions := h
  cites := by
    rw [cites_ofOpinions hplaced, cites_ofOpinions hplaced',
      ofOpinions_citing_eq hplaced hplaced' h, h.length_eq]
  citedBy := by
    rw [citedBy_ofOpinions hplaced, citedBy_ofOpinions hplaced',
      ofOpinions_citing_eq hplaced hplaced' h, h.length_eq]
  links := by
    rw [links_ofOpinions hplaced, links_ofOpinions hplaced',
      ofOpinions_citing_eq hplaced hplaced' h, idAt_eq h]
  folded := by
    rw [folded_ofOpinions hplaced, folded_ofOpinions hplaced',
      ofOpinions_citing_eq hplaced hplaced' h]

/-- Lists of records that differ in no more than citations that lead nowhere are refused alike, or
give networks that are the same but for those citations. -/
theorem Network.ofRecords_sameResolved {records records' : List OpinionRecord}
    (h : List.Forall₂ (OpinionRecord.SameResolved (records.map OpinionRecord.id)) records
      records') :
    SameOutcome (fun g g' => g.Drawn ∧ g.SameResolved g') (ofRecords records)
      (ofRecords records') := by
  refine (Docket.addAll_sameResolved ⟨.nil, rfl⟩ h).bind fun d d' hd hd' hdockets => ?_
  obtain ⟨hinStep, hrecords⟩ := Docket.inStep_empty.addAll hd
  obtain ⟨hinStep', -⟩ := Docket.inStep_empty.addAll hd'
  have hfilings := hdockets.filings
  have hids : filingIds d.filings = records.map OpinionRecord.id := by
    have hall : d.filings.map Filing.record = records := hrecords
    rw [← hall, List.map_map]
    rfl
  rw [← hids] at hfilings
  have hplaced : ∀ id ∈ (placed d.filings).map Opinion.id, id ∈ filingIds d.filings := by
    have hperm := (records_placed d.filings).map OpinionRecord.id
    rw [List.map_map, List.map_map] at hperm
    exact fun id hid => hperm.mem_iff.mp hid
  have hisEmpty : d'.filings.isEmpty = d.filings.isEmpty := by
    rw [Bool.eq_iff_iff, List.isEmpty_iff_length_eq_zero, List.isEmpty_iff_length_eq_zero,
      hfilings.length_eq]
  rw [hinStep.network_eq, hinStep'.network_eq, hisEmpty]
  by_cases hempty : d.filings.isEmpty = true
  · rw [if_pos hempty, if_pos hempty]
    exact .refused _
  · rw [if_neg hempty, if_neg hempty]
    refine .accepted ⟨ofOpinions_drawn hinStep.proper.wellPlaced ?_, ?_⟩
    · rw [← List.length_pos_iff, length_placed, List.length_pos_iff]
      simpa using hempty
    · refine ofOpinions_sameResolved hinStep.proper.wellPlaced hinStep'.proper.wellPlaced ?_
      exact (placed_sameResolved hfilings).imp fun o o' ho =>
        ⟨ho.index, ho.date, ho.record.rest, fun id hid => ho.record.resolved id (hplaced id hid)⟩

end Precedent
