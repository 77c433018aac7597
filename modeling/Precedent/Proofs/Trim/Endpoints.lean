import Precedent.Proofs.Lookup.Authorities
import Precedent.Proofs.Network.Crossings
import Precedent.Proofs.Network.Nearness

/-!
# Precedent.Proofs.Trim.Endpoints

**How far the ends of a link are.** A link of a known degree has a citing end to which a chain leads
from the latest opinion, and a cited end from which one leads to the earliest; its degree is that of
the two lengths together. The chains go on across the link, so each of its ends lies on the way from
the latest opinion to the earliest. For a one-way link this costs one step, which is what the
degree of an opinion leaves out; hence an end is never farther than the link, and a cut by degrees
that keeps the link keeps its ends. The two lengths of a mutual link may belong to the same end.
Then the other end is reached by one step more and left by one step more, and it can be one degree
farther than the link.
-/

namespace Precedent

/-! ### Comparing degrees -/

namespace Degree

variable {index size f b m n : Nat}

theorem ofIndex_le_ofIndex (h : m ≤ n) : ofIndex m ≤ ofIndex n := by
  show (ofIndex m).index ≤ (ofIndex n).index
  rw [index_ofIndex, index_ofIndex]
  omega

theorem index_ofIndex_succ_le (n : Nat) :
    (ofIndex (n + 1)).index ≤ (ofIndex n).index + 1 := by
  rw [index_ofIndex, index_ofIndex]
  omega

theorem first_le (d : Degree) : first ≤ d := Nat.zero_le d.index

theorem le_distant (d : Degree) : d ≤ distant := by cases d <;> decide

/-- Whatever the place of an opinion, it is not farther than its distances make it. -/
theorem ofNode_le (h : f + b ≤ n + 1) : ofNode index size (some f) (some b) ≤ ofIndex n := by
  by_cases hroot : index = 0 ∨ index + 1 = size
  · unfold ofNode
    rw [if_pos (by simpa using hroot)]
    exact first_le _
  · by_cases hpos : 1 ≤ f ∧ 1 ≤ b
    · rw [ofNode_of_pos hroot hpos.1 hpos.2]
      exact ofIndex_le_ofIndex (by omega)
    · have hzero : f = 0 ∨ b = 0 := by omega
      unfold ofNode
      rw [if_neg (by simpa using hroot)]
      rcases hzero with rfl | rfl
      · exact first_le _
      · cases f <;> exact first_le _

end Degree

/-! ### Chains across a link -/

namespace Network

namespace Drawn

variable {g : Network} (hg : g.Drawn) {i slot f b n : Nat} {l : Link}
include hg

/-- An opinion that two chains of some lengths lead through is not farther than they make it. -/
theorem node_le_of_chains (hbackward : Chain g.Cites g.latest b i)
    (hforward : Chain g.Cites i f earliest) (hi : i < g.size) (hle : f + b ≤ n + 1) :
    g.degrees.node i ≤ .ofIndex n := by
  obtain ⟨b', hb', hble⟩ := hg.backward_least.exists_le hbackward
  obtain ⟨f', hf', hfle⟩ := hg.forward_least.exists_le hforward
  rw [degrees, Distances.node_degrees hi, hf', hb']
  exact Degree.ofNode_le (by omega)

/-- A link is distant, or it has a citing and a cited end with chains that give its degree. -/
theorem link_eq_distant_or_chains (hslot : slot < g.linkCount) :
    g.degrees.link slot = .distant ∨ ∃ b f, g.degrees.link slot = .ofIndex (b + f) ∧
      (∃ i ∈ g.citingEnds slot, Chain g.Cites g.latest b i) ∧
      ∃ j ∈ g.citedEnds slot, Chain g.Cites j f earliest := by
  rw [degrees, Distances.link_degrees hslot]
  cases hforward : g.distances.linkForward.at? slot with
  | none => exact Or.inl rfl
  | some n =>
      cases hbackward : g.distances.linkBackward.at? slot with
      | none => exact Or.inl rfl
      | some m =>
          obtain ⟨j, hj, f, hchain, rfl⟩ := ((hg.linkForward_least_ends slot n).mp hforward).1
          obtain ⟨i, hi, b, hchain', rfl⟩ := ((hg.linkBackward_least_ends slot m).mp hbackward).1
          refine Or.inr ⟨b, f, ?_, ⟨i, hi, hchain'⟩, j, hj, hchain⟩
          rw [Degree.ofLink]
          exact congrArg Degree.ofIndex (by omega)

/-- The ends of a one-way link are not farther than the link. -/
theorem ends_le_of_oneWay (hl : g.links[slot]? = some l) (honeWay : l.isMutual = false) :
    g.degrees.node l.citing ≤ g.degrees.link slot ∧
      g.degrees.node l.cited ≤ g.degrees.link slot := by
  have hcites : g.Cites l.citing l.cited := hg.collapsesCitations.cites l (Array.mem_of_getElem? hl)
  rcases hg.link_eq_distant_or_chains (Array.getElem?_eq_some_iff.mp hl).1 with
    hdistant | ⟨b, f, heq, ⟨i, hi, hbackward⟩, j, hj, hforward⟩
  · rw [hdistant]
    exact ⟨Degree.le_distant _, Degree.le_distant _⟩
  · rw [hg.citingEnds_eq hl, honeWay] at hi
    rw [hg.citedEnds_eq hl, honeWay] at hj
    obtain rfl : i = l.citing := hi
    obtain rfl : j = l.cited := hj
    rw [heq]
    exact ⟨hg.node_le_of_chains hbackward (hforward.cons hcites) hcites.left_lt (by omega),
      hg.node_le_of_chains (hbackward.snoc hcites) hforward hcites.right_lt (by omega)⟩

/-- The ends of a mutual link are one degree farther than the link at most. -/
theorem ends_le_of_isMutual (hl : g.links[slot]? = some l) (hmutual : l.isMutual = true) :
    (g.degrees.node l.citing).index ≤ (g.degrees.link slot).index + 1 ∧
      (g.degrees.node l.cited).index ≤ (g.degrees.link slot).index + 1 := by
  have hboth := (hg.collapsesCitations.isMutual_iff l (Array.mem_of_getElem? hl)).mp hmutual
  rcases hg.link_eq_distant_or_chains (Array.getElem?_eq_some_iff.mp hl).1 with
    hdistant | ⟨b, f, heq, ⟨i, hi, hbackward⟩, j, hj, hforward⟩
  · rw [hdistant]
    exact ⟨Nat.le_succ_of_le (Degree.le_distant _), Nat.le_succ_of_le (Degree.le_distant _)⟩
  · rw [hg.citingEnds_eq hl, hmutual] at hi
    rw [hg.citedEnds_eq hl, hmutual] at hj
    have hends : ∀ v w, g.Cites v w → g.Cites w v → (i = v ∨ i = w) → (j = v ∨ j = w) →
        (g.degrees.node v).index ≤ (g.degrees.link slot).index + 1 := by
      intro v w hvw hwv hi hj
      -- Either a chain touches this end, or it does after one more step.
      have hback : ∃ b' ≤ b + 1, Chain g.Cites g.latest b' v := by
        rcases hi with rfl | rfl
        · exact ⟨b, Nat.le_succ b, hbackward⟩
        · exact ⟨b + 1, Nat.le_refl _, hbackward.snoc hwv⟩
      have hforth : ∃ f' ≤ f + 1, Chain g.Cites v f' earliest := by
        rcases hj with rfl | rfl
        · exact ⟨f, Nat.le_succ f, hforward⟩
        · exact ⟨f + 1, Nat.le_refl _, hforward.cons hvw⟩
      obtain ⟨b', hb', hbackward'⟩ := hback
      obtain ⟨f', hf', hforward'⟩ := hforth
      have hle : g.degrees.node v ≤ .ofIndex (b + f + 1) :=
        hg.node_le_of_chains hbackward' hforward' hvw.left_lt (by omega)
      rw [heq]
      exact Nat.le_trans hle (Degree.index_ofIndex_succ_le (b + f))
    exact ⟨hends _ _ hboth.1 hboth.2 hi (Or.symm hj), hends _ _ hboth.2 hboth.1 (Or.symm hi) hj⟩

end Drawn

end Network

/-! ### Cuts by degrees -/

namespace Atlas

/-- The ends of a link are about as near as the link itself. -/
structure EndsNearLinks (a : Atlas) : Prop where
  /-- The ends of a one-way link are not farther than the link. -/
  oneWay : ∀ slot l, a.network.links[slot]? = some l → l.isMutual = false →
    a.degrees.node l.citing ≤ a.degrees.link slot ∧ a.degrees.node l.cited ≤ a.degrees.link slot
  /-- The ends of a mutual link are one degree farther at most. -/
  twoWay : ∀ slot l, a.network.links[slot]? = some l → l.isMutual = true →
    (a.degrees.node l.citing).index ≤ (a.degrees.link slot).index + 1 ∧
      (a.degrees.node l.cited).index ≤ (a.degrees.link slot).index + 1
  /-- In degrees mode a one-way link is kept if it falls under the limit: that both of its ends
  have to be kept never drops it. -/
  kept : ∀ requests limit, (a.performAll requests).mode = .degrees → 1 ≤ limit →
    ∃ t, (a.performAll requests).trim limit = .ok t ∧
      ∀ slot l, a.network.links[slot]? = some l → l.isMutual = false →
        (slot ∈ t.links.map KeptLink.slot ↔ (a.degrees.link slot).isBelow limit = true)

/-- **The ends of a link are about as near as the link,** for every list of records that is
accepted. -/
theorem build_endsNearLinks {records : List OpinionRecord} {settings : Settings} {a : Atlas}
    (h : build records settings = .ok a) : a.EndsNearLinks := by
  obtain ⟨g, hrecords, rfl⟩ := build_eq_ok h
  obtain ⟨-, hg⟩ := Network.ofRecords_drawn hrecords
  refine ⟨fun slot l hl => hg.ends_le_of_oneWay hl, fun slot l hl => hg.ends_le_of_isMutual hl, ?_⟩
  intro requests limit hmode hpos
  obtain ⟨mode, summaries, hafter⟩ := exists_performAll_eq (ofNetwork g settings) requests
  rw [hafter] at hmode ⊢
  refine ⟨_, trim_of_ne_zero (Nat.ne_of_gt hpos), fun slot l hl honeWay => ?_⟩
  rw [mem_slot_keptLinks hmode]
  constructor
  · intro hkept
    obtain ⟨-, -, -, -, hbelow⟩ := hkept
    exact hbelow
  · intro hbelow
    obtain ⟨hciting, hcited⟩ := hg.ends_le_of_oneWay hl honeWay
    exact ⟨l, hl, Degree.isBelow_of_le hciting hbelow, Degree.isBelow_of_le hcited hbelow, hbelow⟩

/-- Four records, of which the second and the third cite each other and the way from the fourth to
the first leads over the second. -/
def sideTripRecords : List OpinionRecord :=
  [OpinionRecord.new (.number 1) "1900-01-01",
    { OpinionRecord.new (.number 2) "1901-01-01" with cited := .ofIds [.number 1, .number 3] },
    { OpinionRecord.new (.number 3) "1902-01-01" with cited := .ofIds [.number 2] },
    { OpinionRecord.new (.number 4) "1903-01-01" with cited := .ofIds [.number 2] }]

/-- The third opinion is of fourth degree and its mutual link of third degree. So a cut to three
degrees, which the link falls under, drops it with the opinion; the two one-way links are kept. -/
theorem build_endsNearLinks_sideTrip : ∃ a, build sideTripRecords .default = .ok a ∧
    (a.network.links.map Link.isMutual = #[false, true, false] ∧
      a.degrees = ⟨#[.first, .second, .fourth, .first], #[.second, .third, .second]⟩ ∧
      ((a.performAll [.setMode .degrees]).keptLinks 3).map KeptLink.slot = [0, 2]) ∧
    a.EndsNearLinks := by
  have hbuild : ∀ settings, (build sideTripRecords settings).toOption.map (fun a =>
      (a.network.links.map Link.isMutual, a.degrees,
        ((a.performAll [.setMode .degrees]).keptLinks 3).map KeptLink.slot)) =
      some (#[false, true, false],
        ⟨#[.first, .second, .fourth, .first], #[.second, .third, .second]⟩, [0, 2]) := by
    intro settings
    cbv
  obtain ⟨a, hok, hall⟩ := exists_ok_of_map_toOption (hbuild .default)
  obtain ⟨hmutual, hrest⟩ := Prod.mk.inj hall
  obtain ⟨hdegrees, hslots⟩ := Prod.mk.inj hrest
  exact ⟨a, hok, ⟨hmutual, hdegrees, hslots⟩, build_endsNearLinks hok⟩

end Atlas

end Precedent
