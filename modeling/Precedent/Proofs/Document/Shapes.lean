import Precedent.Document.Reader
import Precedent.Proofs.Document.Acceptance
import Precedent.Proofs.Opinion.Spelling

/-!
# Precedent.Proofs.Document.Shapes

**The shapes of a document agree.** One and the same list of entries can be given as clusters that
cite by a list, as clusters that cite by an object, and as search hits. All three are read as the
records of the entries: however an identifier is spelled and however often it is cited, what counts
is which opinions are cited.
-/

namespace Precedent

/-! ### Entries -/

/-- An identifier as a document gives it: a number, or any text. -/
inductive IdSpelling where
  | number (n : UInt64)
  | text (s : String)
deriving DecidableEq, Repr

namespace IdSpelling

def json : IdSpelling → Json
  | number n => .nat n.toNat
  | text s => .text s

/-- The identifier that is meant. -/
def id : IdSpelling → OpinionId
  | number n => .number n
  | text s => .parse s

end IdSpelling

/-- What each of the shapes can say of an opinion. A short name is not empty if there is one: hits
take an empty one for none. -/
structure DocumentEntry where
  id : IdSpelling
  dateFiled : String
  caseName : Option String
  caseNameShort : Option String
  caseNameShort_ne : caseNameShort ≠ some ""
  absoluteUrl : Option String
  cited : List IdSpelling

/-- The record of an entry. -/
def DocumentEntry.record (e : DocumentEntry) : OpinionRecord :=
  { OpinionRecord.new e.id.id e.dateFiled with
    caseName := e.caseName
    caseNameShort := e.caseNameShort
    absoluteUrl := e.absoluteUrl
    cited := .ofIds (e.cited.map IdSpelling.id) }

/-! ### Shapes -/

/-- The member for a text that may be absent: left out then, or `null`. -/
inductive OptionalMember (name : String) : Option String → List (String × Json) → Prop
  | given (s : String) : OptionalMember name (some s) [(name, .text s)]
  | null : OptionalMember name none [(name, .null)]
  | leftOut : OptionalMember name none []

/-- The citations of an entry as the list of their identifiers. -/
inductive CitesByList (e : DocumentEntry) : Json → Prop
  | list : CitesByList e (.list (e.cited.map IdSpelling.json))

/-- The citations of an entry as an object: the texts of the identifiers are the names, and of no
citation anything else is said. -/
inductive CitesByName (e : DocumentEntry) : Json → Prop
  | object {members : List (String × Json)} (hvalues : ∀ m ∈ members, m.2 = .object [])
      (hnames : ∀ name, name ∈ members.map Prod.fst ↔ ∃ id ∈ e.cited, id.id.display = name) :
      CitesByName e (.object members)

/-- The cluster of an entry. -/
inductive IsCluster (cites : DocumentEntry → Json → Prop) (e : DocumentEntry) : Json → Prop
  | object {url name short : List (String × Json)} {citations : Json}
      (hurl : OptionalMember "absolute_url" e.absoluteUrl url)
      (hname : OptionalMember "case_name" e.caseName name)
      (hshort : OptionalMember "case_name_short" e.caseNameShort short)
      (hcites : cites e citations) :
      IsCluster cites e (.object (url ++ name ++ short ++
        [("date_filed", .text e.dateFiled), ("id", e.id.json),
          ("sub_opinions", .list [.object [("opinions_cited", citations)]])]))

/-- The search hit of an entry. -/
inductive IsHit (e : DocumentEntry) : Json → Prop
  | object {url name short : List (String × Json)}
      (hurl : OptionalMember "absolute_url" e.absoluteUrl url)
      (hname : OptionalMember "caseName" e.caseName name)
      (hshort : OptionalMember "caseNameShort" e.caseNameShort short) :
      IsHit e (.object (url ++ name ++ short ++
        [("cites", .list (e.cited.map IdSpelling.json)), ("dateFiled", .text e.dateFiled),
          ("id", e.id.json)]))

/-- A document with nothing but a list under the given name, of one item for each entry. -/
inductive Lists (name : String) (shape : DocumentEntry → Json → Prop)
    (entries : List DocumentEntry) : Json → Prop
  | object {items : List Json} (h : List.Forall₂ shape entries items) :
      Lists name shape entries (.object [(name, .list items)])

/-- Documents of a shape are read as the given records, whatever the layout of the text and the
order of its members, and there is such a text. -/
structure GiveRecords (document : Json → Prop) (records : List OpinionRecord) : Prop where
  read : ∀ text v, document v → Json.read text = .ok v.canonical →
    parseDocument text = .ok records
  exists_text : ∃ text v, document v ∧ Json.read text = .ok v.canonical

/-! ### Canonical members -/

namespace Json

/-- Members in the order of their names stay where they are. -/
theorem canonical_object_of_sublist {members : List (String × Json)} {names : List String}
    (hsub : (members.map Prod.fst).Sublist names)
    (hnames : names.Pairwise fun a b => compare a b = .lt) :
    canonical (.object members) = .object (members.map fun m => (m.1, m.2.canonical)) := by
  rw [canonical, canonicalMembers_eq_map, Entries.ofList_of_increasing]
  refine (List.pairwise_map (f := Prod.fst) (R := fun a b => compare a b = .lt)).mp ?_
  rw [List.map_map]
  exact hnames.sublist hsub

theorem canonical_object_singleton (name : String) (v : Json) :
    canonical (.object [(name, v)]) = .object [(name, v.canonical)] := by
  rw [canonical, canonicalMembers, canonicalMembers]
  rfl

end Json

namespace OptionalMember

theorem exists_members (name : String) (s? : Option String) :
    ∃ members, OptionalMember name s? members := by
  cases s? with
  | none => exact ⟨_, .leftOut⟩
  | some s => exact ⟨_, .given s⟩

variable {name : String} {s? : Option String} {members : List (String × Json)}
variable (h : OptionalMember name s? members)
include h

theorem map_canonical : members.map (fun m => (m.1, m.2.canonical)) = members := by
  cases h <;> rfl

theorem names_sublist : (members.map Prod.fst).Sublist [name] := by
  cases h with
  | given s => exact List.Sublist.refl _
  | null => exact List.Sublist.refl _
  | leftOut => exact List.nil_sublist _

/-- An optional member is taken up as the option, also where it is left out. -/
theorem takeAll {δ : Type} {s : RecordShape δ} {d : δ} {f : Option String → δ}
    (htake : ∀ v, s.take d name v = (v.asOption Json.asText).map f) (hnone : f none = d) :
    members.foldlM (fun d m => s.take d m.1 m.2) d = pure (f s?) := by
  cases h with
  | given t =>
      rw [List.foldlM_cons, htake]
      rfl
  | null =>
      rw [List.foldlM_cons, htake]
      rfl
  | leftOut =>
      rw [hnone]
      rfl

theorem readable {room : Nat} {rest : List (String × Json)}
    (hrest : Json.Readable (room + 1) (.object rest)) :
    Json.Readable (room + 1) (.object (members ++ rest)) := by
  cases h with
  | given s => exact Json.readable_object_cons.mpr ⟨.text s, hrest⟩
  | null => exact Json.readable_object_cons.mpr ⟨.null, hrest⟩
  | leftOut => exact hrest

end OptionalMember

section OptionalMembers

variable {urlName nameName shortName : String} {url? name? short? : Option String}
variable {url name short : List (String × Json)}
variable (hurl : OptionalMember urlName url? url) (hname : OptionalMember nameName name? name)
variable (hshort : OptionalMember shortName short? short)
include hurl hname hshort

/-- Three optional members and some more, in the order of their names. -/
theorem canonical_optionalMembers (rest : List (String × Json))
    (h : (urlName :: nameName :: shortName :: rest.map Prod.fst).Pairwise
      fun a b => compare a b = .lt) :
    Json.canonical (.object (url ++ name ++ short ++ rest)) =
      .object (url ++ name ++ short ++ rest.map fun m => (m.1, m.2.canonical)) := by
  have hsub : ((url ++ name ++ short ++ rest).map Prod.fst).Sublist
      ([urlName] ++ [nameName] ++ [shortName] ++ rest.map Prod.fst) := by
    rw [List.map_append, List.map_append, List.map_append]
    exact ((hurl.names_sublist.append hname.names_sublist).append hshort.names_sublist).append
      (List.Sublist.refl _)
  rw [Json.canonical_object_of_sublist hsub h, List.map_append, List.map_append, List.map_append,
    hurl.map_canonical, hname.map_canonical, hshort.map_canonical]

/-- Three optional members are taken up one after the other. -/
theorem takeAll_optionalMembers {δ : Type} {s : RecordShape δ}
    (f : Option String → Option String → Option String → δ) (hblank : f none none none = s.blank)
    (htakeUrl : ∀ v, s.take (f none none none) urlName v =
      (v.asOption Json.asText).map fun u => f u none none)
    (htakeName : ∀ u v, s.take (f u none none) nameName v =
      (v.asOption Json.asText).map fun n => f u n none)
    (htakeShort : ∀ u n v, s.take (f u n none) shortName v =
      (v.asOption Json.asText).map fun m => f u n m) (rest : List (String × Json)) :
    s.takeAll (url ++ name ++ short ++ rest) =
      rest.foldlM (fun d m => s.take d m.1 m.2) (f url? name? short?) := by
  rw [RecordShape.takeAll, ← hblank, List.foldlM_append, List.foldlM_append, List.foldlM_append,
    hurl.takeAll htakeUrl rfl, pure_bind, hname.takeAll (htakeName _) rfl, pure_bind,
    hshort.takeAll (htakeShort _ _) rfl, pure_bind]

theorem readable_optionalMembers {room : Nat} {rest : List (String × Json)}
    (hrest : Json.Readable (room + 1) (.object rest)) :
    Json.Readable (room + 1) (.object (url ++ name ++ short ++ rest)) := by
  simp only [List.append_assoc]
  exact hurl.readable (hname.readable (hshort.readable hrest))

end OptionalMembers

/-! ### Reading citations -/

namespace IdSpelling

theorem asId_json (id : IdSpelling) : Json.asId id.json = .ok id.id := by
  cases id with
  | number n => exact (OpinionId.isRead_number n).asId_json
  | text s => rfl

theorem isRead (id : IdSpelling) : id.id.IsRead := Or.inr ⟨_, id.asId_json⟩

theorem readable_json {room : Nat} (id : IdSpelling) : Json.Readable room id.json := by
  cases id with
  | number n => exact readable_nat n.toNat_lt
  | text s => exact .text s

@[simp] theorem canonical_json (id : IdSpelling) : id.json.canonical = id.json := by
  cases id <;> rfl

theorem canonical_list (ids : List IdSpelling) :
    (Json.list (ids.map json)).canonical = .list (ids.map json) := by
  rw [Json.canonical_list, List.map_map]
  exact congrArg Json.list (List.map_congr_left fun id _ => id.canonical_json)

theorem readable_list {room : Nat} (ids : List IdSpelling) :
    Json.Readable (room + 1) (.list (ids.map json)) := by
  refine .list fun v hv => ?_
  obtain ⟨id, -, rfl⟩ := List.mem_map.mp hv
  exact id.readable_json

end IdSpelling

theorem Citations.eq_of_entries {c c' : Citations} (h : c.entries = c'.entries) : c = c' := by
  obtain ⟨entries, _⟩ := c
  obtain ⟨entries', _⟩ := c'
  obtain rfl : entries = entries' := h
  rfl

/-- Identifiers are cited with nothing said of the citations. -/
theorem Citations.mem_entries_ofIds {ids : List OpinionId} {e : OpinionId × Option Opacity} :
    e ∈ (ofIds ids).entries ↔ e.1 ∈ ids ∧ e.2 = none := by
  constructor
  · intro he
    obtain ⟨id, hid, rfl⟩ := List.mem_map.mp (Entries.mem_of_mem_ofList he)
    exact ⟨hid, rfl⟩
  · rintro ⟨hid, hnone⟩
    have hkeys : (ids.map fun id => (id, (none : Option Opacity))).map Prod.fst = ids := by
      rw [List.map_map]
      exact List.map_id ids
    have hkey : e.1 ∈ (ofIds ids).entries.map Prod.fst :=
      Entries.mem_keys_ofList.mpr (hkeys.symm ▸ hid)
    obtain ⟨e', he', hfst⟩ := List.mem_map.mp hkey
    obtain ⟨id, -, rfl⟩ := List.mem_map.mp (Entries.mem_of_mem_ofList he')
    obtain rfl : e = (id, none) := Prod.ext hfst.symm hnone
    exact he'

/-- Which citations there are depends only on the opinions that are cited. -/
theorem Citations.ofIds_congr {ids ids' : List OpinionId} (h : ∀ id, id ∈ ids ↔ id ∈ ids') :
    ofIds ids = ofIds ids' := by
  refine eq_of_entries (Entries.eq_of_increasing (ofIds ids).increasing (ofIds ids').increasing ?_)
  intro e
  rw [mem_entries_ofIds, mem_entries_ofIds, h]

section

variable {e : DocumentEntry} {v : Json}

theorem CitesByList.asCitations (h : CitesByList e v) :
    v.canonical.asCitations = .ok (.ofIds (e.cited.map IdSpelling.id)) := by
  obtain ⟨⟩ := h
  have hread : (e.cited.map IdSpelling.json).mapM Json.listedId? =
      some (e.cited.map IdSpelling.id) := by
    refine mapM_of_forall₂ (List.forall₂_map_right_iff.mpr (List.forall₂_same.mpr fun id _ => ?_))
    rw [Json.listedId?, id.asId_json]
    rfl
  rw [IdSpelling.canonical_list, Json.asCitations, Json.citations?, hread]
  rfl

/-- What counts of an object of citations is which identifiers its names spell. -/
theorem CitesByName.asCitations (h : CitesByName e v) :
    v.canonical.asCitations = .ok (.ofIds (e.cited.map IdSpelling.id)) := by
  obtain @⟨members, hvalues, hnames⟩ := h
  let names := (Entries.ofList members).map Prod.fst
  have hcanonical : Json.canonical (.object members) = .object (Entries.ofList members) := by
    have hmap : ∀ m ∈ members, (m.1, m.2.canonical) = m := fun m hm =>
      Prod.ext rfl (by rw [hvalues m hm]; rfl)
    rw [Json.canonical, Json.canonicalMembers_eq_map, List.map_congr_left hmap, List.map_id']
  have hread : (Entries.ofList members).mapM Json.namedCitation? =
      some ((Entries.ofList members).map fun m => (OpinionId.parse m.1, none)) := by
    refine mapM_of_forall₂ (List.forall₂_same.mpr fun m hm => ?_)
    rw [Json.namedCitation?, hvalues m (Entries.mem_of_mem_ofList hm)]
    rfl
  have hids : Citations.ofIds (names.map OpinionId.parse) =
      .ofIds (e.cited.map IdSpelling.id) := by
    refine Citations.ofIds_congr fun id => ?_
    rw [List.mem_map, List.mem_map]
    constructor
    · rintro ⟨name, hname, rfl⟩
      obtain ⟨id, hid, rfl⟩ := (hnames name).mp (Entries.mem_keys_ofList.mp hname)
      exact ⟨id, hid, id.isRead.parse_display.symm⟩
    · rintro ⟨id, hid, rfl⟩
      exact ⟨id.id.display, Entries.mem_keys_ofList.mpr ((hnames _).mpr ⟨id, hid, rfl⟩),
        id.isRead.parse_display⟩
  rw [hcanonical, Json.asCitations, Json.citations?, hread, ← hids, Citations.ofIds, List.map_map,
    List.map_map]
  rfl

end

/-! ### Reading records -/

namespace RecordShape

variable {δ : Type} {s : RecordShape δ} {d : δ}

theorem read_object {members : List (String × Json)} (htake : s.takeAll members = .ok d)
    (hrequired : ∀ name ∈ s.fields.take s.required, name ∈ members.map Prod.fst) :
    s.read (.object members) = .ok d := by
  have habsent : s.absent? (members.map Prod.fst) = none := by
    rw [absent?, List.find?_eq_none]
    intro name hname
    simpa using hrequired name hname
  rw [read, htake, habsent]
  rfl

end RecordShape

theorem subOpinion_read {v : Json} {c : Citations} (h : v.asCitations = .ok c) :
    subOpinionShape.read (.object [("opinions_cited", v)]) = .ok c := by
  have hne : v ≠ .null := by
    rintro rfl
    cases h
  refine RecordShape.read_object ?_ (by simp [subOpinionShape])
  show (v.asOption Json.asCitations).map (·.getD .empty) >>= pure = _
  rw [Json.asOption_of_ne hne, h]
  rfl

section

variable {e : DocumentEntry} {v : Json} {cites : DocumentEntry → Json → Prop}

theorem IsCluster.read (h : IsCluster cites e v) (hcites : ∀ c, cites e c →
    c.canonical.asCitations = .ok (.ofIds (e.cited.map IdSpelling.id))) :
    clusterShape.read v.canonical = .ok e.record := by
  obtain @⟨url, name, short, citations, hurl, hname, hshort, hc⟩ := h
  have hsubs : Json.asList subOpinionShape.read
      (.list [.object [("opinions_cited", citations.canonical)]]) =
      .ok [.ofIds (e.cited.map IdSpelling.id)] := by
    rw [Json.asList, List.mapM_cons, subOpinion_read (hcites _ hc)]
    rfl
  rw [canonical_optionalMembers hurl hname hshort _ (by simp only [List.map]; decide),
    List.map_cons, List.map_cons, List.map_singleton, Json.canonical_list, List.map_singleton,
    Json.canonical_object_singleton, e.id.canonical_json]
  refine RecordShape.read_object ?_ (by simp [clusterShape])
  rw [takeAll_optionalMembers hurl hname hshort (s := clusterShape)
    (fun absoluteUrl caseName caseNameShort =>
      { OpinionRecord.new (.number 0) "" with absoluteUrl, caseName, caseNameShort })
    rfl (fun _ => rfl) (fun _ _ => rfl) fun _ _ _ => rfl]
  show (e.id.json.asId.map _ >>= fun r => (Json.asList subOpinionShape.read _).map _ >>= pure) = _
  rw [e.id.asId_json, hsubs]
  rfl

theorem IsHit.read (h : IsHit e v) : hitShape.read v.canonical = .ok ⟨e.record, none⟩ := by
  obtain @⟨url, name, short, hurl, hname, hshort⟩ := h
  have hids : Json.asList Json.asId (.list (e.cited.map IdSpelling.json)) =
      .ok (e.cited.map IdSpelling.id) :=
    mapM_of_forall₂ (List.forall₂_map_right_iff.mpr
      (List.forall₂_same.mpr fun id _ => id.asId_json))
  rw [canonical_optionalMembers hurl hname hshort _ (by simp only [List.map]; decide),
    List.map_cons, List.map_cons, List.map_singleton, IdSpelling.canonical_list,
    e.id.canonical_json]
  refine RecordShape.read_object ?_ (by simp [hitShape])
  rw [takeAll_optionalMembers hurl hname hshort (s := hitShape)
    (fun absoluteUrl caseName caseNameShort =>
      ⟨{ OpinionRecord.new (.number 0) "" with absoluteUrl, caseName, caseNameShort }, none⟩)
    rfl (fun _ => rfl) (fun _ _ => rfl) fun _ _ _ => rfl]
  show ((Json.asList Json.asId _).map _ >>= fun d => e.id.json.asId.map _ >>= pure) = _
  rw [e.id.asId_json, hids]
  rfl

theorem CitesByList.readable {room : Nat} (h : CitesByList e v) : Json.Readable (room + 1) v := by
  obtain ⟨⟩ := h
  exact IdSpelling.readable_list e.cited

theorem CitesByName.readable {room : Nat} (h : CitesByName e v) : Json.Readable (room + 2) v := by
  obtain @⟨members, hvalues, -⟩ := h
  refine .object fun m hm => ?_
  rw [hvalues m hm]
  exact Json.readable_object_nil

theorem CitesByName.exists_json (e : DocumentEntry) : ∃ v, CitesByName e v := by
  let members := e.cited.map fun id => (id.id.display, Json.object [])
  have hvalues : ∀ m ∈ members, m.2 = .object [] := by
    intro m hm
    obtain ⟨id, -, rfl⟩ := List.mem_map.mp hm
    rfl
  refine ⟨_, .object hvalues fun name => ?_⟩
  rw [List.map_map, List.mem_map]
  rfl

theorem IsCluster.readable {room : Nat} (h : IsCluster cites e v)
    (hcites : ∀ c, cites e c → Json.Readable (room + 2) c) : Json.Readable (room + 5) v := by
  obtain ⟨hurl, hname, hshort, hc⟩ := h
  have hsubs : Json.Readable (room + 4) (.list [.object [("opinions_cited", _)]]) :=
    .list fun sub hsub => by
      rw [List.mem_singleton.mp hsub]
      exact Json.readable_object_cons.mpr ⟨hcites _ hc, Json.readable_object_nil⟩
  refine readable_optionalMembers hurl hname hshort ?_
  simpa using ⟨e.id.readable_json, hsubs⟩

theorem IsHit.readable {room : Nat} (h : IsHit e v) : Json.Readable (room + 2) v := by
  obtain ⟨hurl, hname, hshort⟩ := h
  refine readable_optionalMembers hurl hname hshort ?_
  simpa using ⟨IdSpelling.readable_list e.cited, e.id.readable_json⟩

end

/-! ### Documents -/

section

variable {name : String} {shape : DocumentEntry → Json → Prop} {entries : List DocumentEntry}
variable {v : Json}

/-- The one member of a document, read item by item. -/
theorem Lists.exists_items {α : Type} {read : Json → Reads α} {f : DocumentEntry → α}
    (h : Lists name shape entries v)
    (hread : ∀ e item, shape e item → read item.canonical = .ok (f e)) :
    ∃ items, v.canonical = .object [(name, .list items)] ∧
      Json.asList read (.list items) = .ok (entries.map f) := by
  obtain @⟨items, hitems⟩ := h
  refine ⟨items.map Json.canonical, ?_, ?_⟩
  · rw [Json.canonical_object_singleton, Json.canonical_list]
  · exact mapM_of_forall₂ (List.forall₂_map_right_iff.mpr (hitems.imp fun e item => hread e item))

/-- The document and its list are two of the containers that may be open at once. -/
theorem Lists.readable (h : Lists name shape entries v)
    (hshape : ∀ e item, shape e item → Json.Readable 125 item) :
    Json.Readable Json.depthLimit v := by
  obtain @⟨items, hitems⟩ := h
  have hinside : ∀ item ∈ items, Json.Readable 125 item := by
    induction hitems with
    | nil => exact List.forall_mem_nil _
    | cons he _ ih => exact List.forall_mem_cons.mpr ⟨hshape _ _ he, ih⟩
  exact Json.readable_object_cons.mpr ⟨.list hinside, Json.readable_object_nil⟩

/-- Documents of a shape are there for all entries as soon as there are items for each. -/
theorem Lists.giveRecords (hitem : ∀ e, ∃ item, shape e item)
    (hshape : ∀ e item, shape e item → Json.Readable 125 item)
    (hread : ∀ v, Lists name shape entries v →
      readDocument v.canonical = .ok (entries.map DocumentEntry.record)) :
    GiveRecords (Lists name shape entries) (entries.map DocumentEntry.record) where
  read text v hv htext := by
    rw [parseDocument, htext]
    exact hread v hv
  exists_text := by
    choose item hitem using hitem
    have hv : Lists name shape entries (.object [(name, .list (entries.map item))]) :=
      .object (List.forall₂_map_right_iff.mpr (List.forall₂_same.mpr fun e _ => hitem e))
    exact ⟨_, _, hv, Json.read_pretty (hv.readable hshape)⟩

end

theorem giveRecords_clusters {cites : DocumentEntry → Json → Prop} {entries : List DocumentEntry}
    (hexists : ∀ e, ∃ c, cites e c) (hreadable : ∀ e c, cites e c → Json.Readable 122 c)
    (hcites : ∀ e c, cites e c →
      c.canonical.asCitations = .ok (.ofIds (e.cited.map IdSpelling.id))) :
    GiveRecords (Lists "opinion_clusters" (IsCluster cites) entries)
      (entries.map DocumentEntry.record) := by
  refine Lists.giveRecords (fun e => ?_) (fun e item h => h.readable (hreadable e)) fun v hv => ?_
  · obtain ⟨c, hc⟩ := hexists e
    obtain ⟨url, hurl⟩ := OptionalMember.exists_members "absolute_url" e.absoluteUrl
    obtain ⟨name, hname⟩ := OptionalMember.exists_members "case_name" e.caseName
    obtain ⟨short, hshort⟩ := OptionalMember.exists_members "case_name_short" e.caseNameShort
    exact ⟨_, .object hurl hname hshort hc⟩
  · obtain ⟨items, hcanonical, hitems⟩ := hv.exists_items fun e item h => h.read (hcites e)
    have hmember : Json.member? "opinion_clusters"
        (.object [("opinion_clusters", .list items)]) = some (.list items) :=
      Entries.get?_cons_self ..
    rw [hcanonical, readDocument, hmember]
    show (Json.asList clusterShape.read (.list items)).mapError _ = _
    rw [hitems]
    rfl

/-- A hit without reporter citations has the short name that it gives itself. -/
theorem DocumentEntry.finish_record (e : DocumentEntry) :
    HitDraft.finish ⟨e.record, none⟩ = e.record := by
  have hshort : (e.caseNameShort.filter (· != "") <|> none) = e.caseNameShort := by
    cases hs : e.caseNameShort with
    | none => rfl
    | some s =>
        have hne : (s != "") = true :=
          bne_iff_ne.mpr fun heq => e.caseNameShort_ne (hs.trans (congrArg some heq))
        rw [Option.filter_some, if_pos hne]
        rfl
  exact congrArg (fun short => { e.record with caseNameShort := short }) hshort

theorem giveRecords_hits (entries : List DocumentEntry) :
    GiveRecords (Lists "results" IsHit entries) (entries.map DocumentEntry.record) := by
  refine Lists.giveRecords (fun e => ?_) (fun e item h => h.readable) fun v hv => ?_
  · obtain ⟨url, hurl⟩ := OptionalMember.exists_members "absolute_url" e.absoluteUrl
    obtain ⟨name, hname⟩ := OptionalMember.exists_members "caseName" e.caseName
    obtain ⟨short, hshort⟩ := OptionalMember.exists_members "caseNameShort" e.caseNameShort
    exact ⟨_, .object hurl hname hshort⟩
  · obtain ⟨items, hcanonical, hitems⟩ := hv.exists_items fun e item h => h.read
    have hmember : Json.member? "results" (.object [("results", .list items)]) =
        some (.list items) := Entries.get?_cons_self ..
    have hclusters : Json.member? "opinion_clusters" (.object [("results", .list items)]) = none :=
      Entries.get?_cons_of_ne (by decide) ..
    have hcount : Json.member? "count" (.object [("results", .list items)]) = none :=
      Entries.get?_cons_of_ne (by decide) ..
    have hfinish : (entries.map fun e => (⟨e.record, none⟩ : HitDraft)).map HitDraft.finish =
        entries.map DocumentEntry.record := by
      rw [List.map_map]
      exact List.map_congr_left fun e _ => e.finish_record
    rw [hcanonical, readDocument, hmember, hclusters, hcount]
    show ((Json.asList hitShape.read (.list items)).map fun drafts =>
      drafts.map HitDraft.finish).mapError _ = _
    rw [hitems, ← hfinish]
    rfl

/-- **The shapes of a document agree.** Clusters that cite by a list, clusters that cite by an
object and search hits give the same records for the same entries. -/
theorem parseDocument_shapesAgree (entries : List DocumentEntry) :
    GiveRecords (Lists "opinion_clusters" (IsCluster CitesByList) entries)
        (entries.map DocumentEntry.record) ∧
      GiveRecords (Lists "opinion_clusters" (IsCluster CitesByName) entries)
        (entries.map DocumentEntry.record) ∧
      GiveRecords (Lists "results" IsHit entries) (entries.map DocumentEntry.record) :=
  ⟨giveRecords_clusters (fun _ => ⟨_, .list⟩) (fun _ _ h => h.readable) fun _ _ h => h.asCitations,
    giveRecords_clusters CitesByName.exists_json (fun _ _ h => h.readable)
      fun _ _ h => h.asCitations,
    giveRecords_hits entries⟩

end Precedent
