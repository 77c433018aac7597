import Precedent.Proofs.Genealogy.Counts
import Precedent.Proofs.Json.RoundTrip
import Precedent.Proofs.Network.Counts
import Precedent.Proofs.Trim.Kept
import Precedent.Report

/-!
# Precedent.Proofs.Report.Readable

**Summary and table are readable.** Both nest a few containers only, and their numbers fit 64 bits
whenever those of the records do (`FitsWords`): nothing that is counted in a map is more than the
records or their citations, and a cut keeps no more than there is.
-/

namespace Precedent

open Json

/-- Records of which 64 bits hold all numbers: how many there are, how many citations they list, and
how often each is said to be cited. A document gives no greater count of citations, and a list in
memory is no longer than that. -/
structure FitsWords (records : List OpinionRecord) : Prop where
  length : records.length < UInt64.size
  citations : (records.map fun r => r.cited.entries.length).sum < UInt64.size
  counts : ∀ r ∈ records, ∀ n, r.citationCount = some n → n < UInt64.size

/-! ### Values of a report -/

section Values

variable {room : Nat}

theorem fitsUnsigned_natCast {n : Nat} (h : n < UInt64.size) :
    Number.fitsUnsigned (n : Int) = true := by
  have hsize : UInt64.size = 0x10000000000000000 := rfl
  simp only [Number.fitsUnsigned, Bool.and_eq_true, decide_eq_true_eq]
  omega

theorem readable_nat {n : Nat} (h : n < UInt64.size) : Readable room (.nat n) :=
  .int (Or.inl (fitsUnsigned_natCast h))

theorem readable_option {α : Type} {f : α → Json} {a? : Option α}
    (h : ∀ a, a? = some a → Readable room (f a)) : Readable room (.option f a?) := by
  cases a? with
  | none => exact .null
  | some a => exact h a rfl

theorem readable_id (id : OpinionId) : Readable room id.json := by
  cases id with
  | number n => exact readable_nat n.toNat_lt
  | text s => exact .text s

theorem readable_loopWarning (ids : List OpinionId) : Readable (room + 2) (loopWarning ids) := by
  have hmembers : Readable (room + 1) (.list (ids.map OpinionId.json)) := by
    refine .list fun v hv => ?_
    obtain ⟨id, -, rfl⟩ := List.mem_map.mp hv
    exact readable_id id
  simpa [loopWarning] using hmembers

theorem Network.readable_countsJson {g : Network} (hsize : g.size < UInt64.size)
    (hcitations : g.tally.dangling + g.tally.ofSelf + g.citationCount < UInt64.size)
    (hlinks : g.linkCount + g.tally.folded = g.citationCount) :
    Readable (room + 1) g.countsJson := by
  simp only [countsJson, readable_object_cons, readable_object_nil, and_true]
  refine ⟨?_, ?_, ?_, ?_, ?_, ?_⟩ <;> exact readable_nat (by omega)

/-- Counts under names, each of them at most as large as a number that fits. -/
theorem readable_counts {α : Type} {name : α → String} {counts : List (α × Nat)} {most : Nat}
    (h : ∀ c ∈ counts, c.2 ≤ most) (hmost : most < UInt64.size) :
    Readable (room + 1) (.object (counts.map fun (a, n) => (name a, .nat n))) := by
  refine .object fun m hm => ?_
  obtain ⟨c, hc, rfl⟩ := List.mem_map.mp hm
  exact readable_nat (Nat.lt_of_le_of_lt (h c hc) hmost)

theorem Degrees.readable_json {d : Degrees} (h : d.nodes.size < UInt64.size) :
    Readable (room + 2) d.json := by
  have hcounts : ∀ c ∈ d.histogram, c.2 ≤ d.nodes.size := by
    intro c hc
    obtain ⟨degree, -, rfl⟩ := List.mem_map.mp hc
    exact List.count_le_length
  simpa [json] using readable_counts hcounts h

theorem Genealogy.readable_countsJson {t : Genealogy} (h : t.parents.size < UInt64.size) :
    Readable (room + 2) t.countsJson := by
  have horphans : t.orphanCount ≤ t.parents.size := List.count_le_length
  have hlinks : t.links.length ≤ t.parents.size := List.length_filterMap_le ..
  have hcounts : ∀ c ∈ t.ruleCounts, c.2 ≤ t.parents.size := by
    intro c hc
    obtain ⟨rule, -, rfl⟩ := List.mem_map.mp hc
    exact List.countP_le_length.trans hlinks
  simp only [countsJson, readable_object_cons, readable_object_nil, and_true]
  exact ⟨readable_nat (by omega), readable_counts hcounts h⟩

theorem TrimmedMap.readable_countsJson {t : TrimmedMap} (hlimit : t.limit < UInt64.size)
    (hopinions : t.opinions.length < UInt64.size) (hlinks : t.links.length < UInt64.size) :
    Readable (room + 1) t.countsJson := by
  simp only [countsJson, readable_object_cons, readable_object_nil, and_true]
  exact ⟨readable_nat hlimit, .text _, readable_nat hopinions, readable_nat hlinks⟩

/-- The members of the row of an opinion that is kept, as they are written. -/
def KeptOpinion.rowMembers (kept : KeptOpinion) (o : Opinion) : List (String × Json) :=
  [("id", o.id.json),
    ("position", .nat kept.position),
    ("case_name_short", .text o.record.displayName),
    ("absolute_url", .option .text o.record.absoluteUrl),
    ("citation_count", .option .nat o.record.citationCount),
    ("order", .text kept.degree.label),
    ("date_filed", .text o.date.text)]

theorem Atlas.tableRow?_eq (a : Atlas) (kept : KeptOpinion) : a.tableRow? kept =
    a.network.opinions[kept.index]?.map fun o => .object (kept.rowMembers o) := rfl

theorem Atlas.readable_of_tableRow? {a : Atlas} {kept : KeptOpinion} {row : Json}
    (h : a.tableRow? kept = some row) (hposition : kept.position < UInt64.size)
    (hcounts : ∀ o ∈ a.network.opinions, ∀ n, o.record.citationCount = some n →
      n < UInt64.size) : Readable (room + 1) row := by
  obtain ⟨o, ho, rfl⟩ := Option.map_eq_some_iff.mp h
  simp only [readable_object_cons, readable_object_nil, readable_text, and_true, true_and]
  exact ⟨readable_id o.id, readable_nat hposition, readable_option fun s _ => readable_text s,
    readable_option fun n hn => readable_nat (hcounts o (Array.mem_of_getElem? ho) n hn)⟩

end Values

/-! ### Summary and table -/

namespace Atlas

variable {limit : Nat}

section Cut

variable {g : Network} {records : List OpinionRecord} {settings : Settings} {t : TrimmedMap}
  {room : Nat}
variable (h : Network.ofRecords records = .ok g) (hfits : FitsWords records)
include h hfits

theorem length_opinions_lt (htrim : (ofNetwork g settings).trim limit = .ok t) :
    t.opinions.length < UInt64.size := by
  obtain rfl := trim_eq_ok htrim
  have hle : ((ofNetwork g settings).keptOpinions limit).length ≤ g.size := length_keptOpinions_le
  exact Nat.lt_of_le_of_lt (Network.size_eq_length_records h ▸ hle) hfits.length

theorem position_lt (htrim : (ofNetwork g settings).trim limit = .ok t) {kept : KeptOpinion}
    (hkept : kept ∈ t.opinions) : kept.position < UInt64.size := by
  obtain rfl := trim_eq_ok htrim
  have hmem := List.mem_map_of_mem (f := KeptOpinion.position) hkept
  rw [map_position_keptOpinions, List.mem_range'_1] at hmem
  have hle : ((ofNetwork g settings).keptOpinions limit).length ≤ g.size := length_keptOpinions_le
  have hlength := hfits.length
  have hsize := Network.size_eq_length_records h
  omega

theorem length_links_lt (htrim : (ofNetwork g settings).trim limit = .ok t) :
    t.links.length < UInt64.size := by
  obtain rfl := trim_eq_ok htrim
  have hle : ((ofNetwork g settings).keptLinks limit).length ≤
      max g.linkCount g.genealogy.links.length := length_keptLinks_le
  have hparents : g.genealogy.links.length ≤ g.size :=
    (List.length_filterMap_le ..).trans Array.size_ofFn.le
  have hlength := hfits.length
  have hsize := Network.size_eq_length_records h
  have hcitations := Network.tally_add_citationCount h ▸ hfits.citations
  have hlinks := Network.linkCount_add_folded h
  show ((ofNetwork g settings).keptLinks limit).length < UInt64.size
  omega

/-- A summary holds no number that 64 bits do not hold. -/
theorem readable_summary (hlimit : limit < UInt64.size)
    (htrim : (ofNetwork g settings).trim limit = .ok t) :
    Readable (room + 4) ((ofNetwork g settings).summary t) := by
  have hsize : g.size < UInt64.size := Network.size_eq_length_records h ▸ hfits.length
  have hcitations := Network.tally_add_citationCount h ▸ hfits.citations
  have hnodes : (ofNetwork g settings).degrees.nodes.size = g.size := Array.size_ofFn
  have hparents : (ofNetwork g settings).genealogy.parents.size = g.size := Array.size_ofFn
  have hlimit' : t.limit < UInt64.size := trim_eq_ok htrim ▸ hlimit
  refine Readable.canonical ?_
  simp only [readable_object_cons, readable_object_nil, and_true]
  refine ⟨Network.readable_countsJson hsize hcitations (Network.linkCount_add_folded h),
    Degrees.readable_json (by omega),
    TrimmedMap.readable_countsJson hlimit' (length_opinions_lt h hfits htrim)
      (length_links_lt h hfits htrim),
    Genealogy.readable_countsJson (by omega), .list fun v hv => ?_⟩
  obtain ⟨ids, -, rfl⟩ := List.mem_map.mp hv
  exact readable_loopWarning ids

theorem readable_table (htrim : (ofNetwork g settings).trim limit = .ok t) :
    Readable (room + 3) ((ofNetwork g settings).table t) := by
  have hcounts : ∀ o ∈ g.opinions, ∀ n, o.record.citationCount = some n → n < UInt64.size :=
    fun o ho => hfits.counts o.record (Network.record_mem_of_mem_opinions h ho)
  refine Readable.canonical ?_
  simp only [readable_object_cons, readable_object_nil, and_true]
  refine .list fun row hrow => ?_
  obtain ⟨kept, hkept, hrow⟩ := List.mem_filterMap.mp hrow
  exact readable_of_tableRow? hrow (position_lt h hfits htrim hkept) hcounts

end Cut

end Atlas

end Precedent
