import Precedent.Chart.Basic
import Precedent.Proofs.Network.Crossings
import Precedent.Proofs.Trim.ParentLinks

/-!
# Precedent.Proofs.Chart.Lines

**A chart loses nothing of a cut and adds nothing.** A line is drawn if both of its ends have
points, and both always have: every opinion that is kept has a point, and a link is kept only with
its ends. So there is one line for each link, or, where a link is drawn once for each citation that
it stands for, one line for each citation between opinions that are kept.
-/

namespace Precedent

/-! ### What a chart has to show -/

namespace Network

/-- The citation of one opinion by another asks for an opacity. -/
def AsksFor (g : Network) (citing cited : Nat) (opacity : Opacity) : Prop :=
  ∃ o p, g.opinions[citing]? = some o ∧ g.opinions[cited]? = some p ∧
    (p.id, some opacity) ∈ o.record.cited.entries

/-- The opacity of a line from one opinion to another. -/
structure LineOpacity (g : Network) (settings : Settings) (i j : Nat) (opacity : Opacity) :
    Prop where
  own : ∀ asked, g.AsksFor i j asked → opacity = asked
  inReturn : (∀ asked, ¬ g.AsksFor i j asked) → ∀ asked, g.AsksFor j i asked → opacity = asked
  configured : (∀ asked, ¬ g.AsksFor i j asked) → (∀ asked, ¬ g.AsksFor j i asked) →
    opacity = settings.edgeOpacity

end Network

/-- A point stands for an opinion that is kept. -/
structure ChartPoint.StandsFor (p : ChartPoint) (g : Network) (k : KeptOpinion) : Prop where
  opinion : ∃ o, g.opinions[k.index]? = some o ∧ p.id = o.id ∧ p.x = o.date.text
  degree : p.degree = k.degree
  position : p.position = k.position

namespace Chart

/-- The point at the place of the opinion with an index. -/
def HasPoint (c : Chart) (t : TrimmedMap) (i : Nat) (p : ChartPoint) : Prop :=
  ∃ k, (k, p) ∈ t.opinions.zip c.points ∧ k.index = i

/-- A line leads from the point of one opinion to that of another. -/
structure Leads (c : Chart) (g : Network) (settings : Settings) (t : TrimmedMap) (i j : Nat)
    (s : Segment) : Prop where
  source : ∃ p, c.HasPoint t i p ∧ s.source = ⟨p.x, p.y⟩
  target : ∃ p, c.HasPoint t j p ∧ s.target = ⟨p.x, p.y⟩
  opacity : g.LineOpacity settings i j s.opacity

/-- The ends of a line are where points of the chart stand. -/
theorem Leads.exists_points {c : Chart} {g : Network} {settings : Settings} {t : TrimmedMap}
    {i j : Nat} {s : Segment} (h : c.Leads g settings t i j s) : ∃ p ∈ c.points, ∃ q ∈ c.points,
      s.source = p.anchor ∧ s.target = q.anchor := by
  obtain ⟨p, ⟨_, hp, -⟩, hsource⟩ := h.source
  obtain ⟨q, ⟨_, hq, -⟩, htarget⟩ := h.target
  exact ⟨p, (List.of_mem_zip hp).2, q, (List.of_mem_zip hq).2, hsource, htarget⟩

/-- A chart shows all of a cut and nothing else. -/
structure Shows (c : Chart) (g : Network) (settings : Settings) (t : TrimmedMap) : Prop where
  points : List.Forall₂ (fun k p => p.StandsFor g k) t.opinions c.points
  point_unique : ∀ i p q, c.HasPoint t i p → c.HasPoint t i q → p = q
  /-- Outside Spaeth mode every link has one line, in the colour of its degree. -/
  links : t.mode ≠ .spaeth → List.Forall₂ (fun k s =>
    c.Leads g settings t k.source k.target s ∧ s.colour = k.degree.label) t.links c.segments
  /-- In Spaeth mode every citation between opinions that are kept has one line, in the colour of
  the decision of the cited opinion. -/
  citations : t.mode = .spaeth → ∃ drawn : List (Nat × Nat), drawn.Nodup ∧
    (∀ i j, (i, j) ∈ drawn ↔ g.Cites i j ∧ i ∈ t.keptIndices ∧ j ∈ t.keptIndices) ∧
    List.Forall₂ (fun e s => c.Leads g settings t e.1 e.2 s ∧
      ∃ o, g.opinions[e.2]? = some o ∧ s.colour = o.record.directionLabel) drawn c.segments

end Chart

/-! ### Lists -/

/-- Lists that correspond piece by piece correspond when the pieces are put together. -/
theorem forall₂_flatMap {α β γ : Type} {r : β → γ → Prop} {f : α → List β} {g : α → List γ}
    {as : List α} (h : ∀ a ∈ as, List.Forall₂ r (f a) (g a)) :
    List.Forall₂ r (as.flatMap f) (as.flatMap g) :=
  List.rel_flatMap (List.forall₂_same.mpr h) fun _ _ hpieces => hpieces

/-- Where entries have the keys of what they stand beside, every key has an entry, and the value
that is looked up stands beside something with this key. -/
theorem exists_lookup_of_forall₂ {α β : Type} {key : α → Nat} {as : List α}
    {entries : List (Nat × β)} (h : List.Forall₂ (fun a e => e.1 = key a) as entries) {i : Nat}
    (hi : i ∈ as.map key) : ∃ b, entries.lookup i = some b ∧
      ∃ a, (a, b) ∈ as.zip (entries.map Prod.snd) ∧ key a = i := by
  induction h with
  | nil => cases hi
  | @cons a e as entries he _ ih =>
      obtain ⟨k, b⟩ := e
      by_cases hkey : i = k
      · subst hkey
        exact ⟨b, List.lookup_cons_self, a, List.mem_cons_self, he.symm⟩
      · have hne : i ≠ key a := fun heq => hkey (heq.trans he.symm)
        obtain ⟨b', hlookup, a', hzip, ha'⟩ := ih ((List.mem_cons.mp hi).resolve_left hne)
        refine ⟨b', ?_, a', List.mem_cons_of_mem _ hzip, ha'⟩
        rw [List.lookup_cons, beq_false_of_ne hkey]
        exact hlookup

namespace Atlas

variable {a : Atlas} {t : TrimmedMap} (settings : Settings) {limit i j : Nat} {degree : Degree}

/-! ### Points -/

theorem standsFor_of_point? {k : KeptOpinion} {p : ChartPoint} (h : a.point? t k = some p) :
    p.StandsFor a.network k := by
  obtain ⟨o, ho, rfl⟩ := Option.map_eq_some_iff.mp h
  exact ⟨⟨o, ho, rfl, rfl⟩, rfl, rfl⟩

section

variable (hindex : ∀ k ∈ t.opinions, k.index < a.network.size)
include hindex

theorem forall₂_pointTable : List.Forall₂ (fun k e => e.1 = k.index ∧ a.point? t k = some e.2)
    t.opinions (a.pointTable t) := by
  refine forall₂_filterMap fun k hk => ?_
  obtain ⟨p, hp⟩ : ∃ p, a.point? t k = some p := by
    rw [point?, Array.getElem?_eq_getElem (hindex k hk)]
    exact ⟨_, rfl⟩
  exact ⟨(k.index, p), by rw [hp]; rfl, rfl, hp⟩

/-- The points are those of the opinions that are kept. -/
theorem forall₂_points :
    List.Forall₂ (fun k p => a.point? t k = some p) t.opinions (a.chart t settings).points :=
  List.forall₂_map_right_iff.mpr ((forall₂_pointTable hindex).imp fun _ _ h => h.2)

/-- Every opinion that is kept has a point. -/
theorem exists_point (hi : i ∈ t.keptIndices) : ∃ p, (a.pointTable t).lookup i = some p ∧
    (a.chart t settings).HasPoint t i p :=
  exists_lookup_of_forall₂ ((forall₂_pointTable hindex).imp fun _ _ h => h.1) hi

end

/-- No two opinions that are kept have one index, so an index has one point at most. -/
theorem hasPoint_unique {c : Chart} (hlength : t.opinions.length = c.points.length)
    (hnodup : t.keptIndices.Nodup) {p q : ChartPoint} (hp : c.HasPoint t i p)
    (hq : c.HasPoint t i q) : p = q := by
  obtain ⟨k, hk, hki⟩ := hp
  obtain ⟨k', hk', hki'⟩ := hq
  have hkeys : ((t.opinions.zip c.points).map fun e => e.1.index).Nodup := by
    have hzip := List.map_fst_zip hlength.le
    rw [TrimmedMap.keptIndices, ← hzip, List.map_map] at hnodup
    exact hnodup
  exact congrArg Prod.snd (List.inj_on_of_nodup_map hkeys hk hk' (hki.trans hki'.symm))

/-! ### Lines -/

theorem opacityOf?_eq_some_iff {opacity : Opacity} :
    a.opacityOf? i j = some opacity ↔ a.network.AsksFor i j opacity := by
  simp only [opacityOf?, Option.bind_eq_bind, Option.bind_eq_some_iff, Network.AsksFor,
    Citations.opacity?, Option.join_eq_some_iff]
  refine exists_congr fun o => ?_
  rw [← exists_and_left]
  refine exists_congr fun p => ?_
  rw [and_congr_right_iff]
  intro _
  rw [Entries.get?_eq_some_iff o.record.cited.increasing]

theorem lineOpacity_opacityBetween :
    a.network.LineOpacity settings i j (a.opacityBetween settings i j) := by
  have hnone : ∀ {i j}, (∀ asked, ¬ a.network.AsksFor i j asked) → a.opacityOf? i j = none := by
    intro i j h
    exact Option.eq_none_iff_forall_ne_some.mpr fun asked hasked =>
      h asked (opacityOf?_eq_some_iff.mp hasked)
  refine ⟨?_, ?_, ?_⟩
  · intro asked h
    rw [opacityBetween, opacityOf?_eq_some_iff.mpr h]
    rfl
  · intro hown asked h
    rw [opacityBetween, hnone hown, opacityOf?_eq_some_iff.mpr h]
    rfl
  · intro hown hreturn
    rw [opacityBetween, hnone hown, hnone hreturn]
    rfl

theorem colourTo_of_ne_spaeth (hmode : t.mode ≠ .spaeth) :
    a.colourTo t j degree = degree.label := by
  rw [colourTo]
  split
  · exact absurd ‹_› hmode
  · rfl
  · rfl

theorem colourTo_of_spaeth (hmode : t.mode = .spaeth) {o : Opinion}
    (ho : a.network.opinions[j]? = some o) :
    a.colourTo t j degree = o.record.directionLabel := by
  rw [colourTo, hmode, ho]
  rfl

/-- The citations that a link stands for. -/
def citationsOf (a : Atlas) (k : KeptLink) : List (Nat × Nat) :=
  if a.isMutual k.slot then [(k.source, k.target), (k.target, k.source)]
  else [(k.source, k.target)]

section

variable (hindex : ∀ k ∈ t.opinions, k.index < a.network.size)
include hindex

/-- Between opinions that are kept a line is never left out. -/
theorem exists_segment? (hi : i ∈ t.keptIndices) (hj : j ∈ t.keptIndices) (degree : Degree) :
    ∃ s, a.segment? t settings (a.pointTable t) i j degree = some s ∧
      (a.chart t settings).Leads a.network settings t i j s ∧
      s.colour = a.colourTo t j degree := by
  obtain ⟨p, hp, hpoint⟩ := exists_point settings hindex hi
  obtain ⟨q, hq, hpoint'⟩ := exists_point settings hindex hj
  refine ⟨⟨p.anchor, q.anchor, a.colourTo t j degree, a.opacityBetween settings i j⟩, ?_,
    ⟨⟨p, hpoint, rfl⟩, ⟨q, hpoint', rfl⟩, lineOpacity_opacityBetween settings⟩, rfl⟩
  rw [segment?, hp, hq]
  rfl

/-- Outside Spaeth mode a link has one line. -/
theorem forall₂_segments (hmode : t.mode ≠ .spaeth)
    (hends : ∀ k ∈ t.links, k.source ∈ t.keptIndices ∧ k.target ∈ t.keptIndices) :
    List.Forall₂ (fun k s => (a.chart t settings).Leads a.network settings t k.source k.target s ∧
      s.colour = k.degree.label) t.links (a.chart t settings).segments := by
  rw [← List.flatMap_singleton' t.links]
  refine forall₂_flatMap fun k hk => ?_
  obtain ⟨hsource, htarget⟩ := hends k hk
  obtain ⟨s, hs, hleads, hcolour⟩ :=
    exists_segment? settings hindex hsource htarget k.degree
  have hsegments : a.segmentsOf t settings (a.pointTable t) k = [s] := by
    simp [segmentsOf, hs, hmode]
  rw [hsegments]
  exact .cons ⟨hleads, hcolour.trans (colourTo_of_ne_spaeth hmode)⟩ .nil

/-- In Spaeth mode a link has a line for each citation that it stands for. -/
theorem forall₂_segments_spaeth (hmode : t.mode = .spaeth)
    (hends : ∀ k ∈ t.links, k.source ∈ t.keptIndices ∧ k.target ∈ t.keptIndices) :
    List.Forall₂ (fun e s => (a.chart t settings).Leads a.network settings t e.1 e.2 s ∧
        ∃ o, a.network.opinions[e.2]? = some o ∧ s.colour = o.record.directionLabel)
      (t.links.flatMap a.citationsOf) (a.chart t settings).segments := by
  have hline : ∀ {i j}, i ∈ t.keptIndices → j ∈ t.keptIndices → ∀ degree,
      ∃ s, a.segment? t settings (a.pointTable t) i j degree = some s ∧
        (a.chart t settings).Leads a.network settings t i j s ∧
        ∃ o, a.network.opinions[j]? = some o ∧ s.colour = o.record.directionLabel := by
    intro i j hi hj degree
    obtain ⟨s, hs, hleads, hcolour⟩ := exists_segment? settings hindex hi hj degree
    obtain ⟨k, hk, rfl⟩ := List.mem_map.mp hj
    have ho := Array.getElem?_eq_getElem (hindex k hk)
    exact ⟨s, hs, hleads, _, ho, hcolour.trans (colourTo_of_spaeth hmode ho)⟩
  refine forall₂_flatMap fun k hk => ?_
  obtain ⟨hsource, htarget⟩ := hends k hk
  obtain ⟨s, hs, hleads⟩ := hline hsource htarget k.degree
  obtain ⟨s', hs', hleads'⟩ := hline htarget hsource k.degree
  rw [segmentsOf, citationsOf, hs, hs', hmode]
  cases a.isMutual k.slot with
  | false => exact .cons hleads .nil
  | true => exact .cons hleads (.cons hleads' .nil)

end

/-! ### Citations between opinions that are kept -/

section

variable (hg : a.network.Drawn)
include hg

theorem mem_citationsOf {k : KeptLink} (hk : k ∈ a.citationLinks) :
    (i, j) ∈ a.citationsOf k ↔ a.network.CollapsedInto k.slot i j := by
  obtain ⟨l, hl, heq⟩ := mem_citationLinks.mp hk
  rw [hg.collapsedInto_iff_of_getElem? hl, heq]
  cases hmutual : l.isMutual <;> simp [citationsOf, isMutual, hl, hmutual]

/-- The links of which both ends are kept stand for the citations between opinions that are kept. -/
theorem mem_flatMap_citationsOf :
    (i, j) ∈ (a.citationLinks.filter (a.keepsEnds limit)).flatMap a.citationsOf ↔
      a.network.Cites i j ∧ i ∈ (a.keptOpinions limit).map KeptOpinion.index ∧
        j ∈ (a.keptOpinions limit).map KeptOpinion.index := by
  have hends : ∀ k ∈ a.citationLinks, a.network.JoinsAt k.slot i j →
      (a.keepsEnds limit k = true ↔ i ∈ (a.keptOpinions limit).map KeptOpinion.index ∧
        j ∈ (a.keptOpinions limit).map KeptOpinion.index) := by
    intro k hk hjoins
    have hjoins' := joinsAt_of_mem_citationLinks hk
    rw [keepsEnds_iff_of_joinsAt hg hjoins']
    rcases hjoins'.eq_or_swap hjoins with ⟨rfl, rfl⟩ | ⟨rfl, rfl⟩
    · rfl
    · exact and_comm
  rw [List.mem_flatMap]
  constructor
  · intro h
    obtain ⟨k, hk, hmem⟩ := h
    obtain ⟨hk, hkept⟩ := List.mem_filter.mp hk
    obtain ⟨hcites, hslot⟩ := (mem_citationsOf hg hk).mp hmem
    exact ⟨hcites, (hends k hk (hg.linkBetween?_eq_some_iff.mp hslot)).mp hkept⟩
  · intro h
    obtain ⟨hcites, hkept⟩ := h
    obtain ⟨slot, hjoins⟩ := hg.exists_slot (Or.inl hcites)
    have hcollapsed : a.network.CollapsedInto slot i j :=
      ⟨hcites, hg.linkBetween?_eq_some_iff.mpr hjoins⟩
    obtain ⟨l, hl, -⟩ := id hjoins
    have hk : ⟨slot, l.citing, l.cited, a.degrees.link slot⟩ ∈ a.citationLinks :=
      mem_citationLinks.mpr ⟨l, hl, rfl⟩
    exact ⟨_, List.mem_filter.mpr ⟨hk, (hends _ hk hjoins).mpr hkept⟩,
      (mem_citationsOf hg hk).mpr hcollapsed⟩

/-- No citation is drawn twice. -/
theorem nodup_flatMap_citationsOf :
    ((a.citationLinks.filter (a.keepsEnds limit)).flatMap a.citationsOf).Nodup := by
  have hslots : a.citationLinks.Pairwise fun k k' => k.slot ≠ k'.slot := by
    rw [← List.pairwise_map, map_slot_citationLinks]
    exact List.nodup_range
  refine List.nodup_flatMap.mpr ⟨fun k hk => ?_, ?_⟩
  · have hne := hg.ne_of_joinsAt (joinsAt_of_mem_citationLinks (List.mem_of_mem_filter hk))
    rw [citationsOf]
    split <;> simp [hne]
  · refine (hslots.filter _).imp_of_mem fun {k k'} hk hk' hne => ?_
    rintro ⟨i, j⟩ hmem hmem'
    obtain ⟨-, hslot⟩ := (mem_citationsOf hg (List.mem_of_mem_filter hk)).mp hmem
    obtain ⟨-, hslot'⟩ := (mem_citationsOf hg (List.mem_of_mem_filter hk')).mp hmem'
    exact hne (Option.some.inj (hslot.symm.trans hslot'))

end

/-! ### Charts of a map -/

theorem chart_shows (ha : a.Derived) (htrim : a.trim limit = .ok t) :
    (a.chart t settings).Shows a.network settings t := by
  have hindex := index_lt_of_trim htrim
  have hkept : t.keptIndices = (a.keptOpinions limit).map KeptOpinion.index :=
    congrArg (List.map KeptOpinion.index) (opinions_of_trim htrim)
  have hends : ∀ k ∈ t.links, k.source ∈ t.keptIndices ∧ k.target ∈ t.keptIndices := by
    rw [links_of_trim htrim, hkept]
    exact fun _ => ends_mem_of_mem_keptLinks ha.drawn ha.genealogy
  have hpoints := forall₂_points settings hindex
  refine
    { points := hpoints.imp fun _ _ => standsFor_of_point?
      point_unique := fun _ _ _ =>
        hasPoint_unique hpoints.length_eq (hkept ▸ nodup_index_keptOpinions)
      links := fun hmode => forall₂_segments settings hindex hmode hends
      citations := fun hmode =>
        ⟨t.links.flatMap a.citationsOf, ?_, ?_, forall₂_segments_spaeth settings hindex hmode hends⟩ }
  all_goals
    rw [links_of_trim htrim, keptLinks_spaeth ((mode_of_trim htrim).symm.trans hmode)]
  · exact nodup_flatMap_citationsOf ha.drawn
  · rw [hkept]
    exact fun _ _ => mem_flatMap_citationsOf ha.drawn

/-- A chart does not depend on the mode of the map but on that of the cut. -/
theorem chart_performAll (requests : List AtlasRequest) :
    (a.performAll requests).chart t settings = a.chart t settings := by
  obtain ⟨mode, summaries, hafter⟩ := exists_performAll_eq a requests
  rw [hafter]
  rfl

/-- **A chart shows a cut, all of it and nothing else,** for every list of records that is accepted,
all requests that go before the cut or before the chart, and any settings of the chart. -/
theorem build_chart_shows {records : List OpinionRecord} {settings : Settings}
    (h : build records settings = .ok a) (before after : List AtlasRequest)
    (htrim : (a.performAll before).trim limit = .ok t) (chosen : Settings) :
    ((a.performAll after).chart t chosen).Shows a.network chosen t := by
  rw [chart_performAll, ← chart_performAll chosen before, ← network_performAll a before]
  exact chart_shows chosen (derived_performAll h before) htrim

/-- The opacity of a line that cannot be seen, zero in single precision. -/
def invisible : Opacity := .finite false 0 Number.binary32.bottom

/-- Three records, of which the first two cite each other. The earlier one asks for a line that
cannot be seen; the other one asks for nothing, and neither does the third, which cites both. -/
def fadedRecords : List OpinionRecord :=
  [{ OpinionRecord.new (.number 1) "1900-01-01" with
      cited := .ofList [(.number 2, some invisible)] },
    { OpinionRecord.new (.number 2) "1901-01-01" with cited := .ofIds [.number 1] },
    { OpinionRecord.new (.number 3) "1902-01-01" with cited := .ofIds [.number 1, .number 2] }]

/-- In Spaeth mode the mutual link has two lines, and neither can be seen. -/
theorem build_chart_shows_fadedRecords : ∃ a t, build fadedRecords .default = .ok a ∧
    (a.performAll [.setMode .spaeth]).trim 3 = .ok t ∧
    (∀ chosen : Settings,
      (a.chart t chosen).segments.map (fun s => (s.source.x, s.target.x, s.opacity)) =
        [("1900-01-01", "1901-01-01", invisible), ("1901-01-01", "1900-01-01", invisible),
          ("1902-01-01", "1900-01-01", chosen.edgeOpacity),
          ("1902-01-01", "1901-01-01", chosen.edgeOpacity)]) ∧
    ((a.performAll []).chart t .default).Shows a.network .default t := by
  have hbuild : ∀ settings chosen : Settings, (build fadedRecords settings).toOption.map (fun a =>
      ((a.performAll [.setMode .spaeth]).trim 3).toOption.map fun t =>
        (a.chart t chosen).segments.map fun s => (s.source.x, s.target.x, s.opacity)) =
      some (some [("1900-01-01", "1901-01-01", invisible), ("1901-01-01", "1900-01-01", invisible),
        ("1902-01-01", "1900-01-01", chosen.edgeOpacity),
        ("1902-01-01", "1901-01-01", chosen.edgeOpacity)]) := by
    intro settings chosen
    cbv
  obtain ⟨a, hok, hcut⟩ := exists_ok_of_map_toOption (hbuild .default .default)
  obtain ⟨t, htrim, -⟩ := exists_ok_of_map_toOption hcut
  refine ⟨a, t, hok, htrim, fun chosen => ?_, build_chart_shows hok _ [] htrim _⟩
  have hsegments := hbuild .default chosen
  rw [hok, Except.toOption, Option.map_some, htrim] at hsegments
  exact Option.some.inj (Option.some.inj hsegments)

end Atlas

end Precedent
