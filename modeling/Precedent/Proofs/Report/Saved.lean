import Mathlib.Tactic.FinCases
import Precedent.Document.Field
import Precedent.Proofs.Calendar.Written
import Precedent.Proofs.Network.Loops
import Precedent.Proofs.Report.Balance
import Precedent.Proofs.Report.Readable

/-!
# Precedent.Proofs.Report.Saved

**A saved report can be read back.** `Json.tableRow?` reads a row of the table with the readers of a
document, so the identifier, the filing date and the members that may be `null` are taken as those
of a record would be. Every row of a saved table gives its opinion, and the saved summary gives the
counts and the loops of the map (`Json.savedSummary?`). Names and addresses come back whatever
characters they hold.
-/

namespace Precedent

/-! ### Lists -/

theorem mapM_of_forall₂ {m : Type → Type} [Monad m] [LawfulMonad m] {α β γ : Type} {f : α → γ}
    {g : β → m γ} {as : List α} {bs : List β}
    (h : List.Forall₂ (fun a b => g b = pure (f a)) as bs) : bs.mapM g = pure (as.map f) := by
  induction h with
  | nil => rfl
  | cons hb _ ih => rw [List.mapM_cons, hb, pure_bind, ih, pure_bind, List.map_cons]

theorem mapM_map_eq_pure {m : Type → Type} [Monad m] [LawfulMonad m] {α β : Type} {f : α → β}
    {g : β → m α} {as : List α} (h : ∀ a ∈ as, g (f a) = pure a) :
    (as.map f).mapM g = pure as := by
  rw [mapM_of_forall₂ (f := id) (List.forall₂_map_right_iff.mpr (List.forall₂_same.mpr h)),
    List.map_id]

/-! ### Readers of written values -/

namespace Json

theorem canonical_list (items : List Json) :
    canonical (.list items) = .list (items.map canonical) := by
  rw [canonical, canonicalItems_eq_map]

theorem asNatural_nat {n : Nat} (h : n < UInt64.size) : asNatural (.nat n) = .ok n := by
  rw [nat, asNatural, if_pos (fitsUnsigned_natCast h), Int.toNat_natCast]

theorem asOption_text (s? : Option String) : asOption asText (option text s?) = .ok s? := by
  cases s? <;> rfl

theorem asOption_nat {n? : Option Nat} (h : ∀ n, n? = some n → n < UInt64.size) :
    asOption asNatural (option nat n?) = .ok n? := by
  cases n? with
  | none => rfl
  | some n =>
      show (asNatural (nat n)).map some = _
      rw [asNatural_nat (h n rfl)]
      rfl

theorem canonical_option {α : Type} {f : α → Json} (h : ∀ a, canonical (f a) = f a)
    (a? : Option α) : canonical (option f a?) = option f a? := by
  cases a? with
  | none => rfl
  | some a => exact h a

theorem asList_map {α : Type} {f : Json → Reads α} {g : α → Json} {as : List α}
    (h : ∀ a ∈ as, f (g a) = .ok a) : asList f (.list (as.map g)) = .ok as :=
  mapM_map_eq_pure h

/-- The items of a list. -/
def items? : Json → Option (List Json)
  | .list items => some items
  | _ => none

/-- The member of an object with the given name, read in the given way. -/
def field? {α : Type} (name : String) (f : Json → Reads α) (v : Json) : Option α :=
  (v.member? name).bind fun m => (f m).toOption

/-- A member is read from what has been written last under its name. -/
theorem field?_canonical {α : Type} {name : String} {f : Json → Reads α}
    {members : List (String × Json)} {m : String × Json} {a : α}
    (hm : members.reverse.find? (fun m => m.1 == name) = some m) (ha : f m.2.canonical = .ok a) :
    (canonical (.object members)).field? name f = some a := by
  rw [field?, member?_canonical, hm, Option.map_some, Option.bind_some, ha]
  rfl

theorem member?_canonical_eq_some {name : String} {members : List (String × Json)}
    {m : String × Json} (hm : members.reverse.find? (fun m => m.1 == name) = some m) :
    (canonical (.object members)).member? name = some m.2.canonical := by
  rw [member?_canonical, hm, Option.map_some]

end Json

namespace OpinionId

/-- An identifier that was read, from a text that spells it or from a JSON value. -/
def IsRead (id : OpinionId) : Prop := (∃ raw, parse raw = id) ∨ ∃ v, Json.asId v = .ok id

@[simp] theorem canonical_json (id : OpinionId) : id.json.canonical = id.json := by
  cases id <;> rfl

/-- A text that is an identifier was parsed. -/
theorem IsRead.exists_parse {s : String} (h : (text s).IsRead) : ∃ raw, parse raw = .text s := by
  rcases h with h | ⟨v, hv⟩
  · exact h
  · unfold Json.asId at hv
    split at hv
    · split at hv
      · cases hv
      · cases hv
    · exact ⟨_, Except.ok.inj hv⟩
    · cases hv

/-- An identifier that was read is read from what it is written as. -/
theorem IsRead.asId_json {id : OpinionId} (h : id.IsRead) : Json.asId id.json = .ok id := by
  cases id with
  | number n =>
      have hn : 0 ≤ (n.toNat : Int) ∧ (n.toNat : Int).toNat < UInt64.size :=
        ⟨Int.natCast_nonneg _, n.toNat_lt⟩
      rw [json, Json.nat, Json.asId, dif_pos hn]
      exact congrArg (fun n => Except.ok (number n)) (UInt64.toNat_inj.mp rfl)
  | text s =>
      obtain ⟨raw, hraw⟩ := h.exists_parse
      exact congrArg Except.ok (parse_of_parse_eq_text hraw)

end OpinionId

/-! ### Rows of the table -/

/-- The degree with a label. -/
def Degree.ofLabel? (label : String) : Option Degree := all.find? fun d => d.label == label

@[simp] theorem Degree.ofLabel?_label (d : Degree) : ofLabel? d.label = some d := by
  cases d <;> rfl

/-- What a row of the table tells of an opinion that is kept. -/
structure TableRow where
  id : OpinionId
  dateFiled : Date
  position : Nat
  order : Degree
  name : String
  url : Option String
  citationCount : Option Nat
deriving DecidableEq, Repr

/-- What a row tells, its members being read like those of a record. -/
def Json.tableRow? (v : Json) : Option TableRow := do
  let id ← v.field? "id" asId
  let dateFiled ← (v.field? "date_filed" asText).bind parseDate
  let position ← v.field? "position" asNatural
  let order ← (v.field? "order" asText).bind Degree.ofLabel?
  let name ← v.field? "case_name_short" asText
  let url ← v.field? "absolute_url" (asOption asText)
  let citationCount ← v.field? "citation_count" (asOption asNatural)
  pure { id, dateFiled, position, order, name, url, citationCount }

/-- The row of an opinion that is kept. -/
def KeptOpinion.row (kept : KeptOpinion) (o : Opinion) : TableRow where
  id := o.id
  dateFiled := o.date
  position := kept.position
  order := kept.degree
  name := o.record.displayName
  url := o.record.absoluteUrl
  citationCount := o.record.citationCount

/-- The row of an opinion that is kept tells what is known of the opinion. -/
theorem tableRow?_rowMembers {kept : KeptOpinion} {o : Opinion} (hid : o.id.IsRead)
    (hposition : kept.position < UInt64.size)
    (hcount : ∀ n, o.record.citationCount = some n → n < UInt64.size) :
    (Json.canonical (.object (kept.rowMembers o))).tableRow? = some (kept.row o) := by
  let row := Json.canonical (.object (kept.rowMembers o))
  have hid' : row.field? "id" Json.asId = some o.id :=
    Json.field?_canonical rfl (o.id.canonical_json.symm ▸ hid.asId_json)
  have hdate : row.field? "date_filed" Json.asText = some o.date.text :=
    Json.field?_canonical rfl rfl
  have hposition' : row.field? "position" Json.asNatural = some kept.position :=
    Json.field?_canonical rfl (Json.asNatural_nat hposition)
  have horder : row.field? "order" Json.asText = some kept.degree.label :=
    Json.field?_canonical rfl rfl
  have hname : row.field? "case_name_short" Json.asText = some o.record.displayName :=
    Json.field?_canonical rfl rfl
  have hurl : row.field? "absolute_url" (Json.asOption Json.asText) =
      some o.record.absoluteUrl := by
    refine Json.field?_canonical rfl ?_
    rw [Json.canonical_option fun _ => rfl, Json.asOption_text]
  have hcount' : row.field? "citation_count" (Json.asOption Json.asNatural) =
      some o.record.citationCount := by
    refine Json.field?_canonical rfl ?_
    rw [Json.canonical_option fun _ => rfl, Json.asOption_nat hcount]
  show row.tableRow? = _
  rw [Json.tableRow?, hid', hdate, hposition', horder, hname, hurl, hcount', Option.bind_some,
    Option.bind_some, Date.parseDate_text, Degree.ofLabel?_label]
  rfl

/-! ### The summary -/

/-- What the summary of a cut tells. -/
structure SavedSummary where
  counts : SummaryCounts
  farthest : Degree
  limit : Nat
  mode : Mode
  keptLinks : Nat
  loops : List (List OpinionId)
deriving DecidableEq, Repr

/-- The identifiers of a loop, from the warning about it. -/
def Json.loopWarning? (v : Json) : Option (List OpinionId) := do
  let kind ← v.field? "kind" asText
  if kind = "citation_cycle" then v.field? "members" (asList asId) else none

/-- What a summary tells. -/
def Json.savedSummary? (v : Json) : Option SavedSummary := do
  let counts ← v.summaryCounts?
  let degrees ← v.member? "degree_stats"
  let farthest ← (degrees.field? "max_degree" asText).bind Degree.ofLabel?
  let cut ← v.member? "trim"
  let limit ← cut.field? "limit" asNatural
  let mode ← (cut.field? "mode" asText).bind Mode.ofName?
  let keptLinks ← cut.field? "kept_links" asNatural
  let warnings ← (v.member? "warnings").bind items?
  let loops ← warnings.mapM loopWarning?
  pure { counts, farthest, limit, mode, keptLinks, loops }

/-- The summary of a cut. -/
def Atlas.savedSummary (a : Atlas) (t : TrimmedMap) : SavedSummary where
  counts :=
    { opinions := a.network.size
      citations := a.network.citationCount
      links := a.network.linkCount
      dangling := a.network.tally.dangling
      ofSelf := a.network.tally.ofSelf
      folded := a.network.tally.folded
      histogram := a.degrees.histogram.map Prod.snd
      kept := t.opinions.length
      orphans := a.genealogy.orphanCount
      rules := a.genealogy.ruleCounts.map Prod.snd }
  farthest := a.degrees.max
  limit := t.limit
  mode := t.mode
  keptLinks := t.links.length
  loops := a.loops

theorem Mode.ofName?_name (m : Mode) : ofName? m.name = some m := by
  cases m <;> rfl

theorem loopWarning?_canonical {ids : List OpinionId} (h : ∀ id ∈ ids, id.IsRead) :
    (loopWarning ids).canonical.loopWarning? = some ids := by
  have hkind : (loopWarning ids).canonical.field? "kind" Json.asText = some "citation_cycle" :=
    Json.field?_canonical rfl rfl
  have hcanonical : (ids.map OpinionId.json).map Json.canonical = ids.map OpinionId.json := by
    rw [List.map_map]
    exact List.map_congr_left fun id _ => id.canonical_json
  have hmembers : (loopWarning ids).canonical.field? "members" (Json.asList Json.asId) =
      some ids := by
    refine Json.field?_canonical rfl ?_
    rw [Json.canonical_list, hcanonical]
    exact Json.asList_map fun id hid => (h id hid).asId_json
  rw [Json.loopWarning?, hkind, hmembers]
  rfl

/-- A summary tells what its map and the cut hold. -/
theorem Atlas.savedSummary?_summary (a : Atlas) {t : TrimmedMap}
    (hloops : ∀ ids ∈ a.loops, ∀ id ∈ ids, id.IsRead) (hlimit : t.limit < UInt64.size)
    (hlinks : t.links.length < UInt64.size) :
    (a.summary t).savedSummary? = some (a.savedSummary t) := by
  have hdegrees : (a.summary t).member? "degree_stats" = some a.degrees.json.canonical :=
    Json.member?_canonical_eq_some (m := ("degree_stats", a.degrees.json)) rfl
  have hmax : a.degrees.json.canonical.field? "max_degree" Json.asText =
      some a.degrees.max.label := Json.field?_canonical rfl rfl
  have hcut : (a.summary t).member? "trim" = some t.countsJson.canonical :=
    Json.member?_canonical_eq_some (m := ("trim", t.countsJson)) rfl
  have hlimit' : t.countsJson.canonical.field? "limit" Json.asNatural = some t.limit :=
    Json.field?_canonical rfl (Json.asNatural_nat hlimit)
  have hmode : t.countsJson.canonical.field? "mode" Json.asText = some t.mode.name :=
    Json.field?_canonical rfl rfl
  have hlinks' : t.countsJson.canonical.field? "kept_links" Json.asNatural =
      some t.links.length := Json.field?_canonical rfl (Json.asNatural_nat hlinks)
  have hwarnings : (a.summary t).member? "warnings" =
      some (.list (a.loops.map fun ids => (loopWarning ids).canonical)) := by
    refine (Json.member?_canonical_eq_some rfl).trans ?_
    rw [Json.canonical_list, List.map_map]
    rfl
  have hloops' : (a.loops.map fun ids => (loopWarning ids).canonical).mapM Json.loopWarning? =
      some a.loops := mapM_map_eq_pure fun ids hids => loopWarning?_canonical (hloops ids hids)
  simp only [Json.savedSummary?, Option.bind_eq_bind, Option.bind_eq_some_iff]
  exact ⟨_, summaryCounts?_summary a t, _, hdegrees, _, ⟨_, hmax, Degree.ofLabel?_label _⟩, _, hcut,
    _, hlimit', _, ⟨_, hmode, Mode.ofName?_name _⟩, _, hlinks', _, ⟨_, hwarnings, rfl⟩, _, hloops',
    rfl⟩

/-! ### The files -/

namespace Atlas

/-- The table is an object with nothing but its rows. -/
theorem table_eq (a : Atlas) (t : TrimmedMap) : a.table t =
    .object [("opinions", .list
      (t.opinions.filterMap fun kept => (a.tableRow? kept).map Json.canonical))] := by
  have hrows : (t.opinions.filterMap fun kept => (a.tableRow? kept).map Json.canonical) =
      (t.opinions.filterMap a.tableRow?).map Json.canonical := List.map_filterMap.symm
  rw [hrows, ← Json.canonicalItems_eq_map]
  rfl

/-- What summary and table of a cut give when they are read again. -/
structure ReadsBack (a : Atlas) (records : List OpinionRecord) (t : TrimmedMap)
    (files : List (String × String)) : Prop where
  /-- The opinions that are kept stand in the order of their positions. -/
  positions : t.opinions.map KeptOpinion.position = List.range' 1 t.opinions.length
  /-- The table is an object of rows, one for each of them in this order, and a row tells what the
  record of the opinion says. -/
  table : ∃ text rows, files.lookup "nodes.json" = some text ∧
    Json.read text = .ok (.object [("opinions", .list rows)]) ∧
    List.Forall₂ (fun kept row => ∃ o, a.network.opinions[kept.index]? = some o ∧
      o.record ∈ records ∧ parseDate o.record.dateFiled = some o.date ∧
      row.tableRow? = some (kept.row o)) t.opinions rows
  summary : ∃ text v, files.lookup "summary.json" = some text ∧ Json.read text = .ok v ∧
    v.savedSummary? = some (a.savedSummary t)

section Cut

variable {g : Network} {records : List OpinionRecord} {settings : Settings} {limit : Nat}
  {t : TrimmedMap}
variable (h : Network.ofRecords records = .ok g) (hids : ∀ r ∈ records, r.id.IsRead)
include h hids

theorem isRead_of_mem_loops {ids : List OpinionId} (hmem : ids ∈ g.loops) {id : OpinionId}
    (hid : id ∈ ids) : id.IsRead := by
  obtain ⟨loop, -, rfl⟩ := Network.Drawn.mem_loops_iff.mp hmem
  obtain ⟨i, -, hi⟩ := List.mem_filterMap.mp hid
  obtain ⟨o, ho, rfl⟩ := Option.map_eq_some_iff.mp hi
  exact hids o.record (Network.record_mem_of_mem_opinions h (Array.mem_of_getElem? ho))

/-- Every opinion that is kept has a row that tells what its record says. -/
theorem exists_row (hfits : FitsWords records) (htrim : (ofNetwork g settings).trim limit = .ok t)
    {kept : KeptOpinion} (hkept : kept ∈ t.opinions) :
    ∃ row, ((ofNetwork g settings).tableRow? kept).map Json.canonical = some row ∧
      ∃ o, g.opinions[kept.index]? = some o ∧ o.record ∈ records ∧
        parseDate o.record.dateFiled = some o.date ∧ row.tableRow? = some (kept.row o) := by
  have hindex : kept.index < g.opinions.size := index_lt_of_trim htrim kept hkept
  have ho := Array.getElem?_eq_getElem hindex
  have hmem := Array.getElem_mem hindex
  have hrecord := Network.record_mem_of_mem_opinions h hmem
  refine ⟨_, ?_, _, ho, hrecord, Network.parseDate_of_mem_opinions h hmem,
    tableRow?_rowMembers (hids _ hrecord) (position_lt h hfits htrim hkept)
      (hfits.counts _ hrecord)⟩
  rw [tableRow?_eq]
  show ((g.opinions[kept.index]?.map _).map _) = _
  rw [ho]
  rfl

end Cut

variable {records : List OpinionRecord} {settings : Settings} {limit : Nat}

/-- **A saved report can be read back,** for all records whose identifiers were read and whose
numbers are words, every mode and every cut. -/
theorem reportFiles_readBack {a : Atlas} (h : build records settings = .ok a)
    (hids : ∀ r ∈ records, r.id.IsRead) (hfits : FitsWords records) (hlimit : limit < UInt64.size)
    (mode : Mode) {t : TrimmedMap} (htrim : (a.setMode mode).trim limit = .ok t) (c : Chart) :
    (a.setMode mode).ReadsBack records t ((a.setMode mode).reportFiles t c) := by
  obtain ⟨g, hg, rfl⟩ := build_eq_ok h
  -- A change of mode is a change of settings.
  change (ofNetwork g { settings with mode }).trim limit = .ok t at htrim
  have htable := Json.read_pretty_canonical (readable_table hg hfits htrim)
  have hsummary := Json.read_pretty_canonical (readable_summary hg hfits hlimit htrim)
  have hread := savedSummary?_summary (ofNetwork g { settings with mode })
    (fun _ hmem _ hid => isRead_of_mem_loops hg hids hmem hid) (trim_eq_ok htrim ▸ hlimit)
    (length_links_lt hg hfits htrim)
  exact {
    positions := by
      rw [trim_eq_ok htrim]
      exact map_position_keptOpinions
    table := ⟨_, _, rfl, table_eq .. ▸ htable,
      forall₂_filterMap fun _ hkept => exists_row hg hids hfits htrim hkept⟩
    summary := ⟨_, _, rfl, hsummary, hread⟩ }

/-- Two records that cite each other, with the largest number and a text for identifiers, years
before 0 and after 9999, and a name of a quote, a backslash, a line break and a control character.
-/
def unusualRecords : List OpinionRecord :=
  [{ OpinionRecord.new (.number 18446744073709551615) "-0044-03-15" with
      caseNameShort := some "\"\\\n\x01é"
      citationCount := some 18446744073709551615
      cited := .ofIds [.text "a § 1"] },
    { OpinionRecord.new (.text "a § 1") "+12000-01-01" with
      absoluteUrl := some ""
      cited := .ofIds [.number 18446744073709551615] }]

theorem unusualRecords_readBack : ∃ a t, build unusualRecords .default = .ok a ∧
    (a.setMode .spaeth).trim 1 = .ok t ∧ t.opinions.length = 2 ∧
    a.loops = [[.number 18446744073709551615, .text "a § 1"]] ∧
    (a.setMode .spaeth).ReadsBack unusualRecords t
      ((a.setMode .spaeth).reportFiles t ((a.setMode .spaeth).chart t .default)) := by
  have hbuild : ∀ settings, (build unusualRecords settings).toOption.map (fun a =>
      ((a.keptOpinions 1).length, a.loops)) =
        some (2, [[.number 18446744073709551615, .text "a § 1"]]) := by
    intro settings
    cbv
  obtain ⟨a, hok, hfacts⟩ := exists_ok_of_map_toOption (hbuild .default)
  obtain ⟨hlength, hloops⟩ := Prod.mk.inj hfacts
  have hids : ∀ r ∈ unusualRecords, r.id.IsRead := by
    have htext : OpinionId.parse "a § 1" = .text "a § 1" := by cbv
    intro r hr
    fin_cases hr
    · exact Or.inr ⟨.int 18446744073709551615, rfl⟩
    · exact Or.inl ⟨_, htext⟩
  have hfits : FitsWords unusualRecords := by
    refine ⟨by decide, by decide, fun r hr n hn => ?_⟩
    fin_cases hr <;> cases hn
    decide
  have htrim := trim_of_ne_zero (a := a.setMode .spaeth) (show 1 ≠ 0 by decide)
  exact ⟨a, _, hok, htrim, hlength, hloops,
    reportFiles_readBack hok hids hfits (by decide) .spaeth htrim _⟩

end Atlas

end Precedent
