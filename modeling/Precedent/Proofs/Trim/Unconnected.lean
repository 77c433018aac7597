import Precedent.Proofs.Genealogy.Counts
import Precedent.Proofs.Network.Arrival
import Precedent.Proofs.Network.Widening
import Precedent.Proofs.Trim.Kept

/-!
# Precedent.Proofs.Trim.Unconnected

**An opinion that is not connected does not disturb the map.** A record that the others do not cite
and that cites none of them is sorted in somewhere, and the others keep their order: what places
them counts citations within the set, and nobody cites the new identifier. So the network widens,
and from that follows what becomes of parents and of every cut. Only if the new opinion comes first
or last does it take the place of a root, and then nothing of this needs to hold.
-/

namespace Precedent

/-- A record with an identifier of its own that does not cite, and is not cited by, any of the given
records. It may cite itself, and whatever is not among them. -/
structure OpinionRecord.Unconnected (r : OpinionRecord) (records : List OpinionRecord) : Prop where
  new : r.id ∉ records.map OpinionRecord.id
  uncited : ∀ r' ∈ records, r.id ∉ r'.cited.ids
  citesNone : ∀ id ∈ r.cited.ids, id = r.id ∨ id ∉ records.map OpinionRecord.id

/-! ### The place of a filing -/

/-- An identifier that is not cited makes no difference to the count of resolved citations. -/
theorem OpinionRecord.resolvedCount_cons {r : OpinionRecord} {id : OpinionId} (h : id ∉ r.cited.ids)
    (ids : List OpinionId) : r.resolvedCount (id :: ids) = r.resolvedCount ids := by
  refine congrArg List.length (List.filter_congr fun id' hid' => ?_)
  have hne : id' ≠ id := fun heq => h (heq ▸ hid')
  simp [hne]

/-- A filing that is not cited is put in somewhere, and the others keep their order. -/
theorem exists_chronological_cons {f : Filing} {filings : List Filing}
    (h : ∀ f' ∈ filings, f.record.id ∉ f'.record.cited.ids) :
    ∃ front back, chronological (f :: filings) = front ++ f :: back ∧
      chronological filings = front ++ back := by
  have hkeys : keyed (filingIds (f :: filings)) filings = keyed (filingIds filings) filings := by
    refine List.map_congr_left fun f' hf' => ?_
    rw [Filing.chronology, filingIds, List.map_cons,
      OpinionRecord.resolvedCount_cons (h f' hf'), Filing.chronology, filingIds]
  obtain ⟨front, back, hcons, hrest, -⟩ := @List.mergeSort_cons _
    (fun a b : Chronology × Filing => (compare a.1 b.1).isLE)
    (fun _ _ _ => Std.TransCmp.isLE_trans) (fun a b => by
      have hswap : compare b.1 a.1 = (compare a.1 b.1).swap := Std.OrientedCmp.eq_swap
      cases hcmp : compare a.1 b.1 <;> simp [hswap, hcmp])
    (f.chronology (filingIds (f :: filings)), f) (keyed (filingIds filings) filings)
  refine ⟨front.map Prod.snd, back.map Prod.snd, ?_, ?_⟩
  · show ((keyed (filingIds (f :: filings)) (f :: filings)).mergeSort _).map Prod.snd = _
    rw [keyed, List.map_cons, ← keyed, hkeys, hcons, List.map_append, List.map_cons]
  · show ((keyed (filingIds filings) filings).mergeSort _).map Prod.snd = _
    rw [hrest, List.map_append]

theorem getElem?_shiftPast {α : Type} (front back : List α) (a : α) (i : Nat) :
    (front ++ a :: back)[shiftPast front.length i]? = (front ++ back)[i]? := by
  by_cases h : i < front.length
  · rw [shiftPast_of_lt h, List.getElem?_append_left h, List.getElem?_append_left h]
  · have hle := Nat.le_of_not_lt h
    rw [shiftPast_of_le hle, List.getElem?_append_right (Nat.le_succ_of_le hle),
      List.getElem?_append_right hle, Nat.succ_sub hle, List.getElem?_cons_succ]

namespace Network

/-- Records that stay unconnected to one that is put in at a place keep their citations. -/
theorem apart_of_unconnected {g g' : Network} {place : Nat} {r : OpinionRecord}
    {records : List OpinionRecord} (hr : r.Unconnected records)
    (hmem : ∀ (i : Nat) r', g.opinions[i]?.map Opinion.record = some r' → r' ∈ records)
    (hplace : g'.opinions[place]?.map Opinion.record = some r)
    (hrecord : ∀ i, g'.opinions[shiftPast place i]?.map Opinion.record =
      g.opinions[i]?.map Opinion.record) {i j : Nat} (hcites : g'.Cites i j) :
    i ≠ place ∧ j ≠ place := by
  obtain ⟨hne, a, b, ha, hb, hid⟩ := cites_iff_records.mp hcites
  constructor
  · rintro rfl
    obtain ⟨j, rfl⟩ := exists_shiftPast_eq hne.symm
    obtain rfl : a = r := Option.some.inj (ha.symm.trans hplace)
    have hb := List.mem_map_of_mem (f := OpinionRecord.id) (hmem j b (hrecord j ▸ hb))
    rcases hr.citesNone _ hid with heq | hout
    · exact hr.new (heq ▸ hb)
    · exact hout hb
  · rintro rfl
    obtain ⟨i, rfl⟩ := exists_shiftPast_eq hne
    obtain rfl : b = r := Option.some.inj (hb.symm.trans hplace)
    exact hr.uncited a (hmem i a (hrecord i ▸ ha)) hid

section Records

variable {records : List OpinionRecord} {g : Network} (h : ofRecords records = .ok g)
include h

/-- The records of a network stand in chronological order. -/
theorem getElem?_records (i : Nat) : g.opinions[i]?.map Opinion.record =
    (chronological (filingsOf records))[i]?.map Filing.record := by
  obtain ⟨-, rfl⟩ := ofRecords_eq_ok_iff.mp h
  show (placed (filingsOf records)).toArray[i]?.map Opinion.record = _
  rw [List.getElem?_toArray, getElem?_placed, Option.map_map]
  rfl

theorem mem_of_getElem?_records {i : Nat} {r : OpinionRecord}
    (hr : g.opinions[i]?.map Opinion.record = some r) : r ∈ records := by
  obtain ⟨o, ho, rfl⟩ := Option.map_eq_some_iff.mp hr
  exact record_mem_of_mem_opinions h (Array.mem_of_getElem? ho)

/-- A record that can be dated and is not connected to those of a network is accepted with them, and
the network widens, unless the new opinion comes first or last. -/
theorem exists_widens {r : OpinionRecord} {date : Date} (hr : r.Unconnected records)
    (hdate : parseDate r.dateFiled = some date) :
    ∃ g' place, ofRecords (r :: records) = .ok g' ∧ g'.idAt? place = some r.id ∧
      (0 < place → place + 1 < g'.size → g.Widens place g') := by
  have hok := acceptable_of_ofRecords h
  have hok' : Acceptable (r :: records) :=
    { ne_nil := List.cons_ne_nil _ _
      dated := List.forall_mem_cons.mpr ⟨⟨date, hdate⟩, hok.dated⟩
      nodup := List.nodup_cons.mpr ⟨hr.new, hok.nodup⟩ }
  obtain ⟨g', hg'⟩ : ∃ g', ofRecords (r :: records) = .ok g' := ⟨_, hok'.ofRecords_eq⟩
  have huncited : ∀ f ∈ filingsOf records, r.id ∉ f.record.cited.ids := by
    intro f hf
    refine hr.uncited f.record ?_
    rw [← map_record_filingsOf hok.dated]
    exact List.mem_map_of_mem hf
  obtain ⟨front, back, hcons, hrest⟩ := exists_chronological_cons (f := ⟨date, r⟩) huncited
  -- At the new place stands the new record, and at the others those from before.
  have hplace : g'.opinions[front.length]?.map Opinion.record = some r := by
    rw [getElem?_records hg', filingsOf_cons hdate, hcons]
    simp
  have hrecord : ∀ i, g'.opinions[shiftPast front.length i]?.map Opinion.record =
      g.opinions[i]?.map Opinion.record := by
    intro i
    rw [getElem?_records hg', getElem?_records h, filingsOf_cons hdate, hcons, hrest,
      getElem?_shiftPast]
  have hid := congrArg (Option.map OpinionRecord.id) hplace
  rw [Option.map_map] at hid
  have hsize : g'.size = g.size + 1 := by
    rw [size_eq_length_records hg', size_eq_length_records h, List.length_cons]
  refine ⟨g', front.length, hg', hid, fun hpos hlt => ?_⟩
  exact
    { drawn := (ofRecords_drawn h).2
      drawn' := (ofRecords_drawn hg').2
      pos := hpos
      lt := by omega
      size := hsize
      record := hrecord
      apart := apart_of_unconnected hr (fun _ _ => mem_of_getElem?_records h) hplace hrecord }

end Records

/-! ### Parents -/

end Network

/-- A parent link with the new indices of its ends. -/
def ParentLink.shift (place : Nat) (p : ParentLink) : ParentLink :=
  { p with child := shiftPast place p.child, parent := shiftPast place p.parent }

namespace Network.Widens

variable {place : Nat} {g g' : Network} (h : g.Widens place g')
include h

theorem latestNeighbour?_shiftPast (way : Way) (i : Nat) :
    g'.latestNeighbour? way (shiftPast place i) =
      (g.latestNeighbour? way i).map fun entry => (shiftPast place entry.1, entry.2) := by
  unfold latestNeighbour?
  simp only [h.row_shiftPast, h.directionAt_shiftPast, ← List.map_reverse, List.find?_map,
    List.head?_map, Function.comp_def]
  cases ((g.adjacency way).row i).reverse.find? fun entry =>
      (g.directionAt i).agrees (g.directionAt entry.1) with
  | some entry => rfl
  | none => simp [Function.comp_def]

theorem latestNeighbour?_place (way : Way) : g'.latestNeighbour? way place = none :=
  latestNeighbour?_eq_none_iff.mpr (h.row_place way)

/-- An opinion keeps its parent. -/
theorem parentOf?_shiftPast (i : Nat) :
    g'.parentOf? (shiftPast place i) = (g.parentOf? i).map (ParentLink.shift place) := by
  unfold parentOf?
  rw [h.latestNeighbour?_shiftPast, h.latestNeighbour?_shiftPast]
  cases g.latestNeighbour? .cites i with
  | some entry => rfl
  | none =>
      cases g.latestNeighbour? .citedBy i with
      | some entry => rfl
      | none => rfl

/-- The new opinion has no parent. -/
theorem parentOf?_place : g'.parentOf? place = none := by
  rw [parentOf?, h.latestNeighbour?_place, h.latestNeighbour?_place]
  rfl

/-- The parent links are those from before. -/
theorem links_genealogy_eq :
    g'.genealogy.links = g.genealogy.links.map (ParentLink.shift place) := by
  rw [links_genealogy, h.size, filterMap_range_succ (Nat.le_of_lt h.lt) h.parentOf?_place,
    links_genealogy, List.map_filterMap]
  exact List.filterMap_congr fun i _ => h.parentOf?_shiftPast i

theorem parentOf?_genealogy_shiftPast {i : Nat} (hi : i < g.size) :
    g'.genealogy.parentOf? (shiftPast place i) =
      (g.genealogy.parentOf? i).map (ParentLink.shift place) := by
  rw [parentOf?_genealogy (h.shiftPast_lt_size_iff.mpr hi), h.parentOf?_shiftPast,
    parentOf?_genealogy hi]

end Network.Widens

/-! ### Cuts -/

/-- A link that is kept, with the new indices of its ends. -/
def KeptLink.shift (place : Nat) (k : KeptLink) : KeptLink :=
  { k with source := shiftPast place k.source, target := shiftPast place k.target }

namespace Network.Widens

variable {place limit : Nat} {g g' : Network} (h : g.Widens place g') (settings : Settings)
include h

theorem keeps_shiftPast (i : Nat) :
    (Atlas.ofNetwork g' settings).keeps limit (shiftPast place i) =
      (Atlas.ofNetwork g settings).keeps limit i :=
  congrArg (Degree.isBelow · limit) (h.degree_shiftPast i)

/-- The same opinions are kept. -/
theorem map_idAt?_keptOpinions (hle : limit ≤ 9) :
    ((Atlas.ofNetwork g' settings).keptOpinions limit).map (fun k => g'.idAt? k.index) =
      ((Atlas.ofNetwork g settings).keptOpinions limit).map fun k => g.idAt? k.index := by
  have hids : ∀ g, ((Atlas.ofNetwork g settings).keptOpinions limit).map
      (fun k => g.idAt? k.index) =
        ((List.range g.size).filter ((Atlas.ofNetwork g settings).keeps limit)).map g.idAt? := by
    intro g
    show _ = ((List.range (Atlas.ofNetwork g settings).network.size).filter _).map g.idAt?
    rw [← Atlas.map_index_keptOpinions, List.map_map]
    rfl
  have hplace : (Atlas.ofNetwork g' settings).keeps limit place = false := by
    rw [← Bool.not_eq_true]
    show ¬ (g'.degrees.node place).isBelow limit = true
    rw [h.degree_place]
    exact Degree.not_isBelow_distant hle
  have hkeeps : (Atlas.ofNetwork g' settings).keeps limit ∘ shiftPast place =
      (Atlas.ofNetwork g settings).keeps limit := funext fun i => h.keeps_shiftPast settings i
  rw [hids, hids, h.size, filter_range_succ (Nat.le_of_lt h.lt) hplace, hkeeps, List.map_map]
  exact List.map_congr_left fun i _ => h.idAt?_shiftPast i

theorem keepsEnds_shift (k : KeptLink) :
    (Atlas.ofNetwork g' settings).keepsEnds limit (k.shift place) =
      (Atlas.ofNetwork g settings).keepsEnds limit k :=
  congrArg₂ and (h.keeps_shiftPast settings k.source) (h.keeps_shiftPast settings k.target)

theorem degree_link (slot : Nat) : g'.degrees.link slot = g.degrees.link slot := by
  rw [Degrees.link, h.degrees_links_eq, Degrees.link]

theorem citationLinks_eq : (Atlas.ofNetwork g' settings).citationLinks =
    (Atlas.ofNetwork g settings).citationLinks.map (KeptLink.shift place) := by
  show g'.links.toList.zipIdx.map (fun e => KeptLink.mk e.2 e.1.citing e.1.cited
    (g'.degrees.link e.2)) = (g.links.toList.zipIdx.map fun e => KeptLink.mk e.2 e.1.citing
      e.1.cited (g.degrees.link e.2)).map (KeptLink.shift place)
  rw [h.links_eq, List.zipIdx_map, List.map_map, List.map_map]
  refine List.map_congr_left fun entry _ => ?_
  simp only [Function.comp_apply, Prod.map, h.degree_link, Link.shift, KeptLink.shift, id_eq]

theorem parentLinks_eq : (Atlas.ofNetwork g' settings).parentLinks =
    (Atlas.ofNetwork g settings).parentLinks.map (KeptLink.shift place) := by
  show g'.genealogy.links.map (fun p => KeptLink.mk p.slot p.child p.parent
    (g'.degrees.link p.slot)) = (g.genealogy.links.map fun p => KeptLink.mk p.slot p.child p.parent
      (g.degrees.link p.slot)).map (KeptLink.shift place)
  rw [h.links_genealogy_eq, List.map_map, List.map_map]
  refine List.map_congr_left fun p _ => ?_
  simp only [Function.comp_apply, h.degree_link, ParentLink.shift, KeptLink.shift]

/-- Of links that are the same but for the indices of their ends the same are kept. -/
theorem filter_keepsEnds_shift (links : List KeptLink) :
    (links.map (KeptLink.shift place)).filter
      ((Atlas.ofNetwork g' settings).keepsEnds limit) =
        (links.filter ((Atlas.ofNetwork g settings).keepsEnds limit)).map
          (KeptLink.shift place) := by
  rw [List.filter_map]
  exact congrArg _ (List.filter_congr fun k _ => h.keepsEnds_shift settings k)

/-- The same links are kept. -/
theorem map_slot_keptLinks :
    ((Atlas.ofNetwork g' settings).keptLinks limit).map KeptLink.slot =
      ((Atlas.ofNetwork g settings).keptLinks limit).map KeptLink.slot := by
  unfold Atlas.keptLinks
  rw [h.citationLinks_eq, h.parentLinks_eq, h.filter_keepsEnds_shift, h.filter_keepsEnds_shift]
  have hmode : ∀ g, (Atlas.ofNetwork g settings).mode = settings.mode := fun _ => rfl
  rw [hmode, hmode]
  cases settings.mode with
  | genealogy =>
      dsimp only
      rw [map_eraseDupsBy, map_eraseDupsBy, List.map_map]
      rfl
  | degrees | spaeth =>
      dsimp only
      rw [List.filter_map, List.map_map]
      rfl

end Network.Widens

/-! ### Maps -/

namespace Atlas

/-- The parent of an opinion: its identifier, the slot of the link and the rule. -/
def parentById? (a : Atlas) (node : Nat) : Option (Option OpinionId × Nat × SelectionRule) :=
  (a.genealogy.parentOf? node).map fun p => (a.network.idAt? p.parent, p.slot, p.rule)

/-- A map that holds one more opinion, and of which all else is as in another map. The opinions are
told by their identifiers, since their indices differ. -/
structure UndisturbedBy (a a' : Atlas) (id : OpinionId) : Prop where
  opinions : ∀ b, (∃ i, a'.network.idAt? i = some b) ↔ b = id ∨ ∃ i, a.network.idAt? i = some b
  forward : ∀ b i i', a.network.idAt? i = some b → a'.network.idAt? i' = some b →
    a'.distances.forward.at? i' = a.distances.forward.at? i
  backward : ∀ b i i', a.network.idAt? i = some b → a'.network.idAt? i' = some b →
    a'.distances.backward.at? i' = a.distances.backward.at? i
  degree : ∀ b i i', a.network.idAt? i = some b → a'.network.idAt? i' = some b →
    a'.degrees.node i' = a.degrees.node i
  parent : ∀ b i i', a.network.idAt? i = some b → a'.network.idAt? i' = some b →
    a'.parentById? i' = a.parentById? i
  /-- The links stand at the same slots. -/
  keys : a'.network.links.toList.map Link.key = a.network.links.toList.map Link.key
  linkForward : a'.distances.linkForward = a.distances.linkForward
  linkBackward : a'.distances.linkBackward = a.distances.linkBackward
  linkDegrees : a'.degrees.links = a.degrees.links
  loops : a'.loops = a.loops
  /-- A cut keeps the same opinions and the same links, in the same order. -/
  trim : ∀ mode limit, 1 ≤ limit → limit ≤ 9 → ∃ t t',
    (a.setMode mode).trim limit = .ok t ∧ (a'.setMode mode).trim limit = .ok t' ∧
    (t'.opinions.map fun k => a'.network.idAt? k.index) =
      (t.opinions.map fun k => a.network.idAt? k.index) ∧
    t'.links.map KeptLink.slot = t.links.map KeptLink.slot
  /-- The new opinion is not reached from either end and has no parent. -/
  added : ∀ i', a'.network.idAt? i' = some id →
    a'.distances.forward.at? i' = none ∧ a'.distances.backward.at? i' = none ∧
      a'.degrees.node i' = .distant ∧ a'.genealogy.parentOf? i' = none

end Atlas

namespace Network.Widens

variable {place : Nat} {g g' : Network} (h : g.Widens place g')
include h

/-- An opinion is found at its new index. -/
theorem eq_shiftPast_of_idAt? {b : OpinionId} {i i' : Nat} (hi : g.idAt? i = some b)
    (hi' : g'.idAt? i' = some b) : i' = shiftPast place i :=
  h.drawn'.idAt?_inj hi' (by rw [h.idAt?_shiftPast, hi])

theorem undisturbedBy (settings : Settings) {id : OpinionId} (hid : g'.idAt? place = some id) :
    (Atlas.ofNetwork g settings).UndisturbedBy (Atlas.ofNetwork g' settings) id where
  opinions := by
    intro b
    constructor
    · rintro ⟨i', hi'⟩
      by_cases hplace : i' = place
      · subst hplace
        exact Or.inl (Option.some.inj (hi'.symm.trans hid))
      · obtain ⟨i, rfl⟩ := exists_shiftPast_eq hplace
        exact Or.inr ⟨i, (h.idAt?_shiftPast i).symm.trans hi'⟩
    · rintro (rfl | ⟨i, hi⟩)
      · exact ⟨place, hid⟩
      · exact ⟨shiftPast place i, (h.idAt?_shiftPast i).trans hi⟩
  forward := by
    intro b i i' hi hi'
    obtain rfl := h.eq_shiftPast_of_idAt? hi hi'
    exact h.forward_shiftPast i
  backward := by
    intro b i i' hi hi'
    obtain rfl := h.eq_shiftPast_of_idAt? hi hi'
    exact h.backward_shiftPast i
  degree := by
    intro b i i' hi hi'
    obtain rfl := h.eq_shiftPast_of_idAt? hi hi'
    exact h.degree_shiftPast i
  parent := by
    intro b i i' hi hi'
    obtain rfl := h.eq_shiftPast_of_idAt? hi hi'
    show (g'.genealogy.parentOf? _).map _ = (g.genealogy.parentOf? i).map _
    rw [h.parentOf?_genealogy_shiftPast (lt_of_idAt?_eq_some hi), Option.map_map]
    refine Option.map_congr fun p _ => ?_
    exact congrArg (·, p.slot, p.rule) (h.idAt?_shiftPast p.parent)
  keys := by
    show g'.links.toList.map Link.key = g.links.toList.map Link.key
    rw [h.links_eq, List.map_map]
    rfl
  linkForward := h.linkForward_eq
  linkBackward := h.linkBackward_eq
  linkDegrees := h.degrees_links_eq
  loops := h.loops_eq
  trim := by
    intro mode limit hpos hle
    have hne := Nat.ne_of_gt hpos
    exact ⟨_, _, Atlas.trim_of_ne_zero hne, Atlas.trim_of_ne_zero hne,
      h.map_idAt?_keptOpinions { settings with mode } hle,
      h.map_slot_keptLinks { settings with mode }⟩
  added := by
    intro i' hi'
    obtain rfl := h.drawn'.idAt?_inj hi' hid
    exact ⟨h.forward_place, h.backward_place, h.degree_place,
      (parentOf?_genealogy h.place_lt_size).trans h.parentOf?_place⟩

end Network.Widens

/-- **An unconnected opinion does not disturb the map**, for every list of records that is accepted
and wherever in the list the new record stands, unless it comes first or last in chronological
order. -/
theorem Atlas.build_unconnected {records records' : List OpinionRecord} {r : OpinionRecord}
    {settings : Settings} {a : Atlas} (h : build records settings = .ok a)
    (hr : r.Unconnected records) (hdate : ∃ date, parseDate r.dateFiled = some date)
    (hrecords : (r :: records).Perm records') :
    ∃ a' place, build records' settings = .ok a' ∧ a'.network.idAt? place = some r.id ∧
      (0 < place → place + 1 < a'.network.size → a.UndisturbedBy a' r.id) := by
  obtain ⟨g, hg, rfl⟩ := build_eq_ok h
  obtain ⟨date, hdate⟩ := hdate
  obtain ⟨g', place, hg', hid, hwidens⟩ := Network.exists_widens hg hr hdate
  have hbuild : build records' settings = .ok (ofNetwork g' settings) := by
    rw [build, (acceptable_of_ofRecords hg').ofRecords_perm_eq hrecords, hg']
    rfl
  refine ⟨_, place, hbuild, hid, fun hpos hlt => ?_⟩
  exact (hwidens hpos hlt).undisturbedBy settings hid

/-- A record that cites itself and an opinion outside the set, filed on the day of the third of five
opinions. -/
def unconnectedRecord : OpinionRecord :=
  { OpinionRecord.new (.number 7) "1902-01-01" with cited := .ofIds [.number 7, .number 99] }

theorem Atlas.build_unconnectedRecord : ∃ a a', build fiveRecords .default = .ok a ∧
    build (fiveRecords ++ [unconnectedRecord]) .default = .ok a' ∧
    (a'.network.size, a'.network.idAt? 0, a'.network.idAt? 2, a'.network.idAt? 5) =
      (6, some (.number 1), some (.number 7), some (.number 5)) ∧
    a.UndisturbedBy a' unconnectedRecord.id := by
  have hbuild : ∀ settings, (build fiveRecords settings).toOption.map (fun a => a.network.size) =
      some 5 := by
    intro settings
    cbv
  have hbuild' : ∀ settings, (build (fiveRecords ++ [unconnectedRecord]) settings).toOption.map
      (fun a => (a.network.size, a.network.idAt? 0, a.network.idAt? 2, a.network.idAt? 5)) =
        some (6, some (.number 1), some (.number 7), some (.number 5)) := by
    intro settings
    cbv
  obtain ⟨a, hok, -⟩ := exists_ok_of_map_toOption (hbuild .default)
  obtain ⟨a', hok', hids⟩ := exists_ok_of_map_toOption (hbuild' .default)
  have hr : unconnectedRecord.Unconnected fiveRecords := ⟨by decide, by decide, by decide⟩
  have hrecords : (unconnectedRecord :: fiveRecords).Perm (fiveRecords ++ [unconnectedRecord]) :=
    (List.perm_append_singleton _ _).symm
  obtain ⟨b, place, hb, hplace, hundisturbed⟩ :=
    build_unconnected hok hr (Option.isSome_iff_exists.mp (by cbv)) hrecords
  obtain rfl : a' = b := Except.ok.inj (hok'.symm.trans hb)
  refine ⟨a, a', hok, hok', hids, ?_⟩
  obtain ⟨hsize, hfirst, -, hlast⟩ :
      a'.network.size = 6 ∧ a'.network.idAt? 0 = some (.number 1) ∧
        a'.network.idAt? 2 = some (.number 7) ∧ a'.network.idAt? 5 = some (.number 5) := by
    simpa using hids
  have hpos : place ≠ 0 := by
    rintro rfl
    rw [hfirst] at hplace
    cases hplace
  have hlt : place ≠ 5 := by
    rintro rfl
    rw [hlast] at hplace
    cases hplace
  have hsmall := Network.lt_of_idAt?_eq_some hplace
  exact hundisturbed (by omega) (by omega)

end Precedent
