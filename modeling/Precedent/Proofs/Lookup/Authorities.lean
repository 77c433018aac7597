import Precedent.Proofs.Lookup.Recency
import Precedent.Proofs.Network.Counts
import Precedent.Proofs.Trim.Kept

/-!
# Precedent.Proofs.Lookup.Authorities

**The store of summaries cannot be seen in the answers.** Whatever has been asked before, and
however few summaries are kept, the authorities of an opinion are those that its record and the
other records of the set give (`OpinionRecord.summaryAmong`). Every summary in the store is right
for its identifier, and a look-up can only put in another one that is. An identifier that is not in
the set is refused before the store is asked, so it leaves no mark there.
-/

namespace Precedent

/-! ### Stores that keep right values -/

/-- How many look-ups have been counted. -/
def UseCounts.lookups (c : UseCounts) : Nat := c.hits + c.misses

namespace RecencyStore

variable {κ υ ε : Type} [DecidableEq κ]

omit [DecidableEq κ] in
/-- Every value of a store stands in a relation to its key. -/
def Keeps (s : RecencyStore κ υ) (P : κ → υ → Prop) : Prop := ∀ e ∈ s.entries, P e.1 e.2

variable {s : RecencyStore κ υ} {P : κ → υ → Prop} {k : κ} {v : υ}

theorem mem_entries_of_find? (h : s.find? k = some v) : (k, v) ∈ s.entries := by
  obtain ⟨before, later, hsplit, -⟩ := List.lookup_eq_some_iff.mp h
  rw [hsplit]
  exact List.mem_append_right _ (List.mem_cons_self ..)

/-- Making room only drops entries. -/
theorem mem_entries_of_makeRoom {e : κ × υ} (h : e ∈ s.makeRoom.entries) : e ∈ s.entries := by
  unfold makeRoom evict at h
  split at h
  · split at h
    · exact h
    · exact List.mem_of_mem_filter h
  · exact h

/-- An entry after an insertion is the new one or an old one. -/
theorem mem_entries_of_insert {e : κ × υ} (h : e ∈ (s.insert k v).entries) :
    e = (k, v) ∨ e ∈ s.entries := by
  unfold insert at h
  split at h
  · exact Or.inr h
  · split at h
    · rcases List.mem_cons.mp h with rfl | h
      · exact Or.inl rfl
      · exact Or.inr (List.mem_of_mem_filter h)
    · rcases List.mem_cons.mp h with rfl | h
      · exact Or.inl rfl
      · exact Or.inr (mem_entries_of_makeRoom (List.mem_of_mem_filter h))

theorem Keeps.insert (h : s.Keeps P) (hv : P k v) : (s.insert k v).Keeps P := by
  intro e he
  rcases mem_entries_of_insert he with rfl | he
  · exact hv
  · exact h e he

@[simp] theorem lookups_makeRoom (s : RecencyStore κ υ) :
    s.makeRoom.counts.lookups = s.counts.lookups := by
  unfold makeRoom evict
  split
  · split <;> rfl
  · rfl

/-- An insertion is no look-up. -/
@[simp] theorem lookups_insert (s : RecencyStore κ υ) (k : κ) (v : υ) :
    (s.insert k v).counts.lookups = s.counts.lookups := by
  unfold insert
  split
  · rfl
  · split
    · rfl
    · exact lookups_makeRoom s

section GetOrInsert

variable {compute : Unit → Except ε υ} (hcompute : compute () = .ok v)
include hcompute

/-- A look-up is counted once, as a hit or as a miss. -/
theorem lookups_getOrInsert :
    (s.getOrInsert k compute).2.counts.lookups = s.counts.lookups + 1 := by
  cases hcontains : s.contains k with
  | true =>
      obtain ⟨v', hget⟩ := exists_getOrInsert hcontains compute
      rw [hget]
      exact Nat.add_right_comm ..
  | false =>
      rw [getOrInsert_of_ok hcontains hcompute, lookups_insert]
      rfl

/-- Where the key determines the value, a look-up answers that value, held or not. -/
theorem Keeps.getOrInsert (h : s.Keeps P) (hv : P k v) (hunique : ∀ v', P k v' → v' = v) :
    (s.getOrInsert k compute).1 = .ok v ∧ (s.getOrInsert k compute).2.Keeps P := by
  cases hcontains : s.contains k with
  | true =>
      obtain ⟨v', hfind⟩ := exists_find? hcontains
      obtain rfl := hunique v' (h _ (mem_entries_of_find? hfind))
      rw [RecencyStore.getOrInsert, get, hfind]
      exact ⟨rfl, h⟩
  | false =>
      rw [getOrInsert_of_ok hcontains hcompute]
      exact ⟨rfl, Keeps.insert (s := s.miss) h hv⟩

end GetOrInsert

end RecencyStore

/-! ### Summaries, said by the records -/

/-- The authorities of a record among the records of a set. -/
def OpinionRecord.summaryAmong (records : List OpinionRecord) (r : OpinionRecord) :
    AuthoritySummary where
  authorityIds := r.cited.ids
  authorityCount := r.cited.ids.countP fun id => records.any fun r' => r'.id == id && r'.id != r.id
  citingCount := records.countP fun r' => r'.id != r.id && r'.cited.cites r.id

namespace Network

variable {g : Network} {records : List OpinionRecord}

/-- The summary of an opinion says what the records say. -/
theorem Drawn.authoritySummary_eq (hg : g.Drawn)
    (hrecords : (g.opinions.toList.map Opinion.record).Perm records) {i : Nat} {o : Opinion}
    (ho : g.opinions[i]? = some o) :
    g.authoritySummary i = o.record.summaryAmong records := by
  have hany : ∀ p : OpinionRecord → Bool,
      (g.opinions.toList.any fun a => p a.record) = records.any p := by
    intro p
    rw [← hrecords.any_eq, List.any_map]
    rfl
  have hcountP : ∀ p : OpinionRecord → Bool,
      (g.opinions.toList.countP fun a => p a.record) = records.countP p := by
    intro p
    rw [← hrecords.countP_eq, List.countP_map]
    rfl
  unfold authoritySummary OpinionRecord.summaryAmong
  rw [ho, hg.outDegree_eq_countP ho, hg.inDegree_eq_countP ho]
  simp only [← hany, ← hcountP]
  rfl

/-- A network finds the records of a set, and no others, by their identifiers. -/
structure Knows (g : Network) (records : List OpinionRecord) : Prop where
  nodup : (records.map OpinionRecord.id).Nodup
  indexOf?_of_mem : ∀ r ∈ records, ∃ i, g.indexOf? r.id = some i ∧
    g.authoritySummary i = r.summaryAmong records
  indexOf?_of_unknown : ∀ id, (∀ r ∈ records, r.id ≠ id) → g.indexOf? id = none

theorem Drawn.knows (hg : g.Drawn)
    (hrecords : (g.opinions.toList.map Opinion.record).Perm records) : g.Knows records where
  nodup := by
    have hnodup := hg.wellPlaced.nodup
    rw [← (hrecords.map OpinionRecord.id).nodup_iff, List.map_map]
    exact hnodup
  indexOf?_of_mem := by
    intro r hr
    obtain ⟨o, ho, rfl⟩ := List.mem_map.mp (hrecords.mem_iff.mpr hr)
    obtain ⟨i, hi⟩ := List.getElem?_of_mem ho
    rw [Array.getElem?_toList] at hi
    have hid : g.idAt? i = some o.record.id := by
      rw [idAt?, hi]
      rfl
    exact ⟨i, hg.indexOf?_eq_some_iff.mpr hid, hg.authoritySummary_eq hrecords hi⟩
  indexOf?_of_unknown := by
    intro id hunknown
    refine indexOf?_eq_none_iff.mpr fun o ho => ?_
    exact hunknown o.record (hrecords.mem_iff.mp (List.mem_map_of_mem (Array.mem_def.mp ho)))

end Network

/-! ### Requests -/

/-- What can be asked of an atlas between two cuts. -/
inductive AtlasRequest where
  | setMode (mode : Mode)
  | authorities (id : OpinionId)
deriving DecidableEq, Repr

/-- Whether the authorities of one of some records are asked for. -/
def AtlasRequest.asksFor (records : List OpinionRecord) : AtlasRequest → Bool
  | .setMode _ => false
  | .authorities id => records.any fun r => r.id == id

namespace Atlas

/-- The atlas after a request. -/
def perform (a : Atlas) : AtlasRequest → Atlas
  | .setMode mode => a.setMode mode
  | .authorities id => (a.authorities id).2

/-- The atlas after several requests. -/
def performAll (a : Atlas) : List AtlasRequest → Atlas
  | [] => a
  | request :: rest => (a.perform request).performAll rest

/-- Requests change no more than the mode and the summaries that are held. -/
theorem exists_performAll_eq (a : Atlas) (requests : List AtlasRequest) :
    ∃ mode summaries, a.performAll requests = { a with mode, summaries } := by
  induction requests generalizing a with
  | nil => exact ⟨a.mode, a.summaries, rfl⟩
  | cons request rest ih =>
      have hstep : ∃ mode summaries, a.perform request = { a with mode, summaries } := by
        cases request with
        | setMode mode => exact ⟨mode, a.summaries, rfl⟩
        | authorities id =>
            rw [perform, authorities]
            cases a.network.indexOf? id with
            | none => exact ⟨a.mode, a.summaries, rfl⟩
            | some node => exact ⟨a.mode, _, rfl⟩
      obtain ⟨mode, summaries, hfirst⟩ := hstep
      obtain ⟨mode', summaries', hrest⟩ := ih (a.perform request)
      exact ⟨mode', summaries', by rw [performAll, hrest, hfirst]⟩

theorem network_performAll (a : Atlas) (requests : List AtlasRequest) :
    (a.performAll requests).network = a.network := by
  obtain ⟨mode, summaries, hafter⟩ := exists_performAll_eq a requests
  rw [hafter]

/-- What is computed once for an atlas is what its network gives. -/
structure Derived (a : Atlas) : Prop where
  drawn : a.network.Drawn
  distances : a.distances = a.network.distances
  degrees : a.degrees = a.network.degrees
  genealogy : a.genealogy = a.network.genealogy

namespace Derived

variable {a : Atlas} (h : a.Derived)
include h

theorem setMode (mode : Mode) : (a.setMode mode).Derived :=
  ⟨h.drawn, h.distances, h.degrees, h.genealogy⟩

theorem size_nodes : a.degrees.nodes.size = a.network.size := by
  rw [h.degrees]
  exact Array.size_ofFn

theorem size_links : a.degrees.links.size = a.network.linkCount := by
  rw [h.degrees]
  exact Array.size_ofFn

end Derived

/-- Nothing is computed anew on request. -/
theorem derived_performAll {a : Atlas} {records : List OpinionRecord} {settings : Settings}
    (h : build records settings = .ok a) (requests : List AtlasRequest) :
    (a.performAll requests).Derived := by
  obtain ⟨g, hrecords, rfl⟩ := build_eq_ok h
  obtain ⟨mode, summaries, hafter⟩ := exists_performAll_eq (ofNetwork g settings) requests
  rw [hafter]
  exact ⟨(Network.ofRecords_drawn hrecords).2, rfl, rfl, rfl⟩

/-- An atlas whose network knows some records, with summaries that are right for them. -/
structure Informed (a : Atlas) (records : List OpinionRecord) : Prop where
  knows : a.network.Knows records
  keeps : a.summaries.Keeps fun id summary =>
    ∃ r ∈ records, r.id = id ∧ summary = r.summaryAmong records

variable {a : Atlas} {records : List OpinionRecord}

theorem build_informed {settings : Settings} (h : build records settings = .ok a) :
    a.Informed records ∧ a.summaries.counts.lookups = 0 := by
  obtain ⟨g, hrecords, rfl⟩ := build_eq_ok h
  obtain ⟨hperm, hg⟩ := Network.ofRecords_drawn hrecords
  exact ⟨⟨hg.knows hperm, by simp [RecencyStore.Keeps, ofNetwork, RecencyStore.new]⟩, rfl⟩

namespace Informed

/-- The authorities of a record are answered from the store or from the network, and it makes no
difference from which. -/
theorem authorities_of_mem (h : a.Informed records) {r : OpinionRecord} (hr : r ∈ records) :
    (a.authorities r.id).1 = .ok (r.summaryAmong records) ∧
      (a.authorities r.id).2.Informed records ∧
      (a.authorities r.id).2.summaries.counts.lookups = a.summaries.counts.lookups + 1 := by
  obtain ⟨i, hindex, hsummary⟩ := h.knows.indexOf?_of_mem r hr
  have hunique : ∀ summary, (∃ r' ∈ records, r'.id = r.id ∧ summary = r'.summaryAmong records) →
      summary = r.summaryAmong records := by
    rintro _ ⟨r', hr', hid, rfl⟩
    rw [List.inj_on_of_nodup_map h.knows.nodup hr' hr hid]
  let compute : Unit → Except Fault AuthoritySummary := fun _ => .ok (r.summaryAmong records)
  have hcompute : compute () = .ok (r.summaryAmong records) := rfl
  have hget := h.keeps.getOrInsert hcompute ⟨r, hr, rfl, rfl⟩ hunique
  unfold authorities
  rw [hindex]
  dsimp only
  rw [hsummary]
  exact ⟨hget.1, ⟨h.knows, hget.2⟩, RecencyStore.lookups_getOrInsert hcompute⟩

/-- An identifier that is not in the set changes nothing. -/
theorem authorities_of_unknown (h : a.Informed records) {id : OpinionId}
    (hunknown : ∀ r ∈ records, r.id ≠ id) :
    a.authorities id = (.error (.unknownOpinion id), a) := by
  rw [authorities, h.knows.indexOf?_of_unknown id hunknown]

/-- A request leaves all summaries right, and is counted if it asks for a record. -/
theorem perform (h : a.Informed records) (request : AtlasRequest) :
    (a.perform request).Informed records ∧ (a.perform request).summaries.counts.lookups =
      a.summaries.counts.lookups + if request.asksFor records then 1 else 0 := by
  cases request with
  | setMode mode => exact ⟨⟨h.knows, h.keeps⟩, rfl⟩
  | authorities id =>
      rw [Atlas.perform, AtlasRequest.asksFor]
      by_cases hknown : ∃ r ∈ records, r.id = id
      · obtain ⟨r, hr, rfl⟩ := hknown
        obtain ⟨-, hinformed, hlookups⟩ := h.authorities_of_mem hr
        exact ⟨hinformed, by rw [hlookups, if_pos (List.any_eq_true.mpr ⟨r, hr, by simp⟩)]⟩
      · push Not at hknown
        rw [h.authorities_of_unknown hknown, if_neg (by simpa using hknown)]
        exact ⟨h, rfl⟩

theorem performAll (h : a.Informed records) (requests : List AtlasRequest) :
    (a.performAll requests).Informed records ∧ (a.performAll requests).summaries.counts.lookups =
      a.summaries.counts.lookups + requests.countP (AtlasRequest.asksFor records) := by
  induction requests generalizing a with
  | nil => exact ⟨h, rfl⟩
  | cons request rest ih =>
      obtain ⟨hstep, hlookup⟩ := h.perform request
      obtain ⟨hinformed, hlookups⟩ := ih hstep
      refine ⟨hinformed, ?_⟩
      rw [Atlas.performAll, hlookups, hlookup, List.countP_cons]
      omega

end Informed

/-- What an atlas says about authorities after some requests. -/
structure ServesFrom (a : Atlas) (records : List OpinionRecord) (requests : List AtlasRequest) :
    Prop where
  /-- The authorities of a record are those that the records give. -/
  authorities_of_mem : ∀ r ∈ records,
    ((a.performAll requests).authorities r.id).1 = .ok (r.summaryAmong records)
  /-- An identifier that is not in the set is refused, and nothing changes. -/
  authorities_of_unknown : ∀ id, (∀ r ∈ records, r.id ≠ id) →
    (a.performAll requests).authorities id = (.error (.unknownOpinion id), a.performAll requests)
  /-- Every request for the authorities of a record is a hit or a miss, and no other request. -/
  lookups_eq : (a.performAll requests).summaries.counts.hits +
      (a.performAll requests).summaries.counts.misses =
    requests.countP (AtlasRequest.asksFor records)

/-- **The store of summaries is transparent**, for every list of records that is accepted, all
settings and all requests. -/
theorem build_servesFrom {settings : Settings} (h : build records settings = .ok a)
    (requests : List AtlasRequest) : a.ServesFrom records requests := by
  obtain ⟨hinformed, hzero⟩ := build_informed h
  obtain ⟨hafter, hlookups⟩ := hinformed.performAll requests
  rw [hzero, Nat.zero_add] at hlookups
  exact ⟨fun _ hr => (hafter.authorities_of_mem hr).1, fun _ => hafter.authorities_of_unknown,
    hlookups⟩

/-- Five requests, two of them of one opinion and with others between them. -/
def fiveRequests : List AtlasRequest :=
  [.authorities (.number 5), .authorities (.number 2), .authorities (.number 7), .setMode .spaeth,
    .authorities (.number 5), .authorities (.number 5)]

/-- With room for one summary, the second opinion that is asked for drives out the first. -/
theorem build_servesFrom_fiveRecords :
    ∃ a, build fiveRecords { Settings.default with cacheCapacity := 1 } = .ok a ∧
      (a.performAll fiveRequests).summaries.counts = ⟨1, 3, 2⟩ ∧
      a.ServesFrom fiveRecords fiveRequests := by
  have hbuild : ∀ mode opacity, (build fiveRecords ⟨3, mode, opacity, 1⟩).toOption.map
      (fun a => (a.performAll fiveRequests).summaries.counts) = some ⟨1, 3, 2⟩ := by
    intro mode opacity
    cbv
  obtain ⟨a, hok, hcounts⟩ := exists_ok_of_map_toOption
    (hbuild Settings.default.mode Settings.default.edgeOpacity)
  exact ⟨a, hok, hcounts, build_servesFrom hok fiveRequests⟩

end Atlas

end Precedent
