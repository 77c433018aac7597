import Mathlib.Data.List.Perm.Subperm
import Precedent.Proofs.Genealogy.Counts
import Precedent.Proofs.Network.Loops
import Precedent.Proofs.Network.Walk

/-!
# Precedent.Proofs.Genealogy.Ascent

**From parent to parent along authorities.** A parent that was chosen as an authority is cited by
its child, so going from child to parent along such links goes along citations. Where no loop of
citations is reported this visits no opinion twice, and it can only end where nothing is cited. A
loop of parent links is still possible there, since an opinion that cites nothing takes one that
cites it for its parent; but some link of the loop is of that kind. A loop without such a link is a
loop of citations, and is reported as part of one.
-/

namespace Precedent

/-- Whether a rule chooses a parent among the opinions that the child cites. -/
def SelectionRule.isAuthority : SelectionRule → Bool
  | .sameDirectionAuthority | .latestAuthority => true
  | .latestCitingCase => false

theorem SelectionRule.eq_latestCitingCase {rule : SelectionRule} (h : ¬ rule.isAuthority = true) :
    rule = .latestCitingCase := by
  cases rule with
  | sameDirectionAuthority => exact absurd rfl h
  | latestAuthority => exact absurd rfl h
  | latestCitingCase => rfl

/-- Parent links that lead from opinion to opinion, the last of them back to the first child. -/
structure Genealogy.ClosedLoop (t : Genealogy) (loop : List ParentLink) : Prop where
  ne_nil : loop ≠ []
  mem : ∀ p ∈ loop, p ∈ t.links
  consecutive : loop.IsChain fun p q => p.parent = q.child
  closed : loop.getLast?.map ParentLink.parent = loop.head?.map ParentLink.child

/-- Whatever comes later in a list without gaps is reached in one or more steps. -/
theorem pairwise_chain_of_isChain {step : Nat → Nat → Prop} {stops : List Nat}
    (h : stops.IsChain step) : stops.Pairwise fun i j => ∃ n, Chain step i (n + 1) j := by
  induction stops with
  | nil => exact .nil
  | cons i rest ih =>
      cases rest with
      | nil => exact List.pairwise_singleton _ i
      | cons k rest =>
          rw [List.isChain_cons_cons] at h
          have hrest := ih h.2
          refine List.pairwise_cons.mpr ⟨fun j hj => ?_, hrest⟩
          rcases List.mem_cons.mp hj with rfl | hj
          · exact ⟨0, Chain.nil.snoc h.1⟩
          · obtain ⟨n, hchain⟩ := (List.pairwise_cons.mp hrest).1 j hj
            exact ⟨n + 1, hchain.cons h.1⟩

namespace Network

/-- An opinion has an authority for its parent. -/
def Ascends (g : Network) (i j : Nat) : Prop :=
  ∃ p, g.genealogy.parentOf? i = some p ∧ p.rule.isAuthority = true ∧ p.parent = j

variable {g : Network} {i j : Nat} {p : ParentLink}

/-- There is one way up at most. -/
theorem Ascends.unique {j' : Nat} (h : g.Ascends i j) (h' : g.Ascends i j') : j = j' := by
  obtain ⟨p, hp, -, rfl⟩ := h
  obtain ⟨p', hp', -, rfl⟩ := h'
  rw [hp, Option.some.injEq] at hp'
  rw [hp']

namespace Drawn

variable (hg : g.Drawn)
include hg

/-! ### Authorities are cited -/

/-- A parent that was chosen as an authority is cited by its child. -/
theorem cites_of_parentOf? (h : g.parentOf? i = some p) (hrule : p.rule.isAuthority = true) :
    g.Cites i p.parent := by
  obtain ⟨-, ⟨agrees, hcites, -⟩ | ⟨-, hlatest, -⟩⟩ := parentOf?_cases h
  · exact hg.cites_of_latestNeighbour? hcites
  · -- The rule is the one for opinions that cite nothing.
    rw [hlatest] at hrule
    cases hrule

theorem cites_of_ascends (h : g.Ascends i j) : g.Cites i j := by
  obtain ⟨p, hp, hrule, rfl⟩ := h
  exact hg.cites_of_parentOf? (parentOf?_genealogy_eq_some_iff.mp hp).2 hrule

/-- An opinion that cites another one of the set has an authority for its parent. -/
theorem exists_ascends (h : g.Cites i j) : ∃ k, g.Ascends i k := by
  cases hcites : g.latestNeighbour? .cites i with
  | none => exact absurd h (hg.not_cites_of_latestNeighbour?_eq_none hcites)
  | some entry =>
      obtain ⟨parent, slot, agrees⟩ := entry
      have hparent : g.parentOf? i = some ⟨i, parent, slot,
          if agrees then .sameDirectionAuthority else .latestAuthority⟩ := by
        rw [parentOf?, hcites]
      refine ⟨parent, _, parentOf?_genealogy_eq_some_iff.mpr ⟨h.left_lt, hparent⟩, ?_, rfl⟩
      cases agrees <;> rfl

theorem forall_not_ascends_iff : (∀ j, ¬ g.Ascends i j) ↔ ∀ j, ¬ g.Cites i j := by
  constructor
  · intro h j hcites
    obtain ⟨k, hk⟩ := hg.exists_ascends hcites
    exact h k hk
  · intro h j hascends
    exact h j (hg.cites_of_ascends hascends)

/-! ### Going up without loops -/

section Acyclic

variable (hacyclic : ∀ i n, ¬ Chain g.Cites i (n + 1) i)
include hacyclic

/-- No opinion is visited twice. -/
theorem nodup_of_isChain_ascends {path : List Nat} (h : path.IsChain g.Ascends) : path.Nodup := by
  have hcites : path.IsChain g.Cites := h.imp fun _ _ => hg.cites_of_ascends
  refine (pairwise_chain_of_isChain hcites).imp fun {i j} hchain heq => ?_
  obtain ⟨n, hchain⟩ := hchain
  subst heq
  exact hacyclic i n hchain

omit hacyclic in
/-- Going up comes to an end, or it goes on for as many steps as one likes. -/
theorem exists_top_or_path (n : Nat) (i : Nat) :
    (∃ path top, (i :: path).IsChain g.Ascends ∧ (i :: path).getLast? = some top ∧
      ∀ j, ¬ g.Cites top j) ∨
    ∃ path : List Nat, path.length = n ∧ (i :: path).IsChain g.Ascends := by
  induction n generalizing i with
  | zero => exact Or.inr ⟨[], rfl, List.isChain_singleton i⟩
  | succ n ih =>
      by_cases htop : ∀ j, ¬ g.Cites i j
      · exact Or.inl ⟨[], i, List.isChain_singleton i, rfl, htop⟩
      · obtain ⟨k, hcites⟩ := not_forall_not.mp htop
        obtain ⟨j, hj⟩ := hg.exists_ascends hcites
        rcases ih j with ⟨path, top, hchain, hlast, hnone⟩ | ⟨path, hlength, hchain⟩
        · refine Or.inl ⟨j :: path, top, List.isChain_cons_cons.mpr ⟨hj, hchain⟩, ?_, hnone⟩
          rw [List.getLast?_cons_cons, hlast]
        · exact Or.inr ⟨j :: path, by rw [List.length_cons, hlength],
            List.isChain_cons_cons.mpr ⟨hj, hchain⟩⟩

/-- Going up comes to an end at an opinion that cites none of the set. -/
theorem exists_top (hi : i < g.size) : ∃ path top, (i :: path).IsChain g.Ascends ∧
    (i :: path).getLast? = some top ∧ ∀ j, ¬ g.Cites top j := by
  rcases hg.exists_top_or_path g.size i with h | ⟨path, hlength, hchain⟩
  · exact h
  · -- The path would visit more opinions than there are, and none of them twice.
    have hnodup := hg.nodup_of_isChain_ascends hacyclic hchain
    have hpairwise := pairwise_chain_of_isChain (hchain.imp fun _ _ => hg.cites_of_ascends)
    have hsubset : i :: path ⊆ List.range g.size := by
      intro k hk
      rw [List.mem_range]
      rcases List.mem_cons.mp hk with rfl | hk
      · exact hi
      · obtain ⟨n, hreached⟩ := (List.pairwise_cons.mp hpairwise).1 k hk
        cases hreached with
        | snoc _ hcites => exact hcites.right_lt
    have hle := (List.Nodup.subperm hnodup hsubset).length_le
    rw [List.length_cons, hlength, List.length_range] at hle
    omega

end Acyclic

/-! ### Loops of authorities -/

/-- The children of a loop of authorities cite each other in turn, the last one the first. -/
theorem isChain_children {loop : List ParentLink} (hmem : ∀ p ∈ loop, p ∈ g.genealogy.links)
    (hrules : ∀ p ∈ loop, p.rule.isAuthority = true)
    (hconsecutive : loop.IsChain fun p q => p.parent = q.child)
    (hlast : loop.getLast?.map ParentLink.parent = some i) :
    (loop.map ParentLink.child ++ [i]).IsChain g.Cites := by
  have hcites : ∀ p ∈ loop, g.Cites p.child p.parent := by
    intro p hp
    obtain ⟨child, -, hparent⟩ := mem_links_genealogy.mp (hmem p hp)
    obtain ⟨rfl, -⟩ := hg.joinsAt_of_parentOf? hparent
    exact hg.cites_of_parentOf? hparent (hrules p hp)
  clear hmem hrules
  induction loop with
  | nil => cases hlast
  | cons p rest ih =>
      have hp := hcites p (List.mem_cons_self ..)
      cases rest with
      | nil =>
          obtain rfl := Option.some.inj hlast
          exact List.isChain_pair.mpr hp
      | cons q rest =>
          rw [List.isChain_cons_cons] at hconsecutive
          rw [List.getLast?_cons_cons] at hlast
          refine List.isChain_cons_cons.mpr ⟨hconsecutive.1 ▸ hp, ?_⟩
          exact ih hconsecutive.2 hlast fun q hq => hcites q (List.mem_cons_of_mem _ hq)

/-- What is in one loop with a member of a loop that is listed is a member of it too. -/
theorem mem_of_inOneLoop {loop : List Nat} (hloop : loop ∈ g.loopIndices) (hi : i ∈ loop)
    (hj : j < g.size) (h : g.InOneLoop i j) : j ∈ loop := by
  obtain ⟨k, hk, rfl, -⟩ := mem_loopIndices_iff.mp hloop
  exact (hg.mem_loopOf_iff hk).mpr ⟨hj, ((hg.mem_loopOf_iff hk).mp hi).2.trans h⟩

/-- All members of a loop of authorities are in one loop that is reported. -/
theorem exists_mem_loops_of_closedLoop {loop : List ParentLink}
    (h : g.genealogy.ClosedLoop loop) (hrules : ∀ p ∈ loop, p.rule.isAuthority = true) :
    ∃ ids ∈ g.loops, ∀ p ∈ loop, ∃ a ∈ ids, g.idAt? p.child = some a := by
  cases loop with
  | nil => exact absurd rfl h.ne_nil
  | cons first rest =>
      have hpairwise := pairwise_chain_of_isChain
        (hg.isChain_children h.mem hrules h.consecutive h.closed)
      rw [List.map_cons, List.cons_append, List.pairwise_cons] at hpairwise
      obtain ⟨hfrom, hbetween⟩ := hpairwise
      -- The first child reaches itself, so it is in a loop that is reported.
      obtain ⟨n, hround⟩ := hfrom first.child (List.mem_append_right _ (List.mem_singleton_self _))
      obtain ⟨j, hcites, hj⟩ := exists_inOneLoop_of_chain hround
      obtain ⟨nodes, hnodes, hfirst, -⟩ :=
        hg.exists_mem_loopIndices hcites.right_lt hcites.left_lt hcites.ne.symm hj
      refine ⟨_, mem_loops_iff.mpr ⟨nodes, hnodes, rfl⟩, fun p hp => ?_⟩
      -- All other children are reached from the first one, which is reached from them.
      have hloop : g.InOneLoop first.child p.child := by
        rcases List.mem_cons.mp hp with rfl | hp
        · exact .refl g _
        · have hmem := List.mem_map_of_mem (f := ParentLink.child) hp
          obtain ⟨m, hto⟩ := hfrom p.child (List.mem_append_left _ hmem)
          obtain ⟨k, hback⟩ := (List.pairwise_append.mp hbetween).2.2 p.child hmem first.child
            (List.mem_singleton_self _)
          exact ⟨⟨m + 1, hto⟩, k + 1, hback⟩
      have hlt : p.child < g.size := by
        obtain ⟨child, hchild, hparent⟩ := mem_links_genealogy.mp (h.mem p hp)
        obtain ⟨rfl, -⟩ := hg.joinsAt_of_parentOf? hparent
        exact hchild
      have hid := idAt?_of_lt hlt
      exact ⟨_, List.mem_filterMap.mpr ⟨p.child, hg.mem_of_inOneLoop hnodes hfirst hlt hloop, hid⟩,
        hid⟩

end Drawn

/-- Going up from parent to parent, along authorities only, comes to an end. -/
structure AscentsEnd (g : Network) : Prop where
  /-- There is at most one way up from an opinion. -/
  unique : ∀ i j j', g.Ascends i j → g.Ascends i j' → j = j'
  /-- There is none exactly from an opinion that cites no other one of the set. -/
  stops_iff : ∀ i, (∀ j, ¬ g.Ascends i j) ↔ ∀ j, ¬ g.Cites i j
  /-- No opinion is visited twice on the way up. -/
  nodup : ∀ path : List Nat, path.IsChain g.Ascends → path.Nodup
  /-- The way up from an opinion ends at one that cites no other one of the set. -/
  ends : ∀ i < g.size, ∃ path top, (i :: path).IsChain g.Ascends ∧
    (i :: path).getLast? = some top ∧ ∀ j, ¬ g.Cites top j
  /-- A loop of parent links has a member whose parent cites it. -/
  loops : ∀ loop, g.genealogy.ClosedLoop loop → ∃ p ∈ loop, p.rule = .latestCitingCase

/-- **Parents and loops agree**, for every list of records that is accepted: without loops of
citations every way up along authorities ends, and in any case a loop of parent links along
authorities is part of a loop that is reported. -/
theorem ofRecords_ascents {records : List OpinionRecord} {g : Network}
    (h : ofRecords records = .ok g) :
    (g.loops = [] → g.AscentsEnd) ∧
    ∀ loop, g.genealogy.ClosedLoop loop → (∀ p ∈ loop, p.rule.isAuthority = true) →
      ∃ ids ∈ g.loops, ∀ p ∈ loop, ∃ a ∈ ids, g.idAt? p.child = some a := by
  obtain ⟨-, hg⟩ := ofRecords_drawn h
  refine ⟨fun hnone => ?_, fun loop hloop hrules => hg.exists_mem_loops_of_closedLoop hloop hrules⟩
  have hacyclic : ∀ i n, ¬ Chain g.Cites i (n + 1) i := by
    rw [← hg.loopIndices_eq_nil_iff, ← List.length_eq_zero_iff]
    rw [← List.length_eq_zero_iff, loops, List.length_mergeSort, List.length_map] at hnone
    exact hnone
  exact
    { unique := fun _ _ _ => Ascends.unique
      stops_iff := fun _ => hg.forall_not_ascends_iff
      nodup := fun _ => hg.nodup_of_isChain_ascends hacyclic
      ends := fun _ => hg.exists_top hacyclic
      loops := by
        intro loop hloop
        by_contra hall
        push Not at hall
        obtain ⟨ids, hids, -⟩ := hg.exists_mem_loops_of_closedLoop hloop fun p hp =>
          Classical.not_not.mp fun hrule => hall p hp (SelectionRule.eq_latestCitingCase hrule)
        rw [hnone] at hids
        cases hids }

/-- Two records, the later of which cites the earlier one. -/
def twoRecords : List OpinionRecord :=
  [OpinionRecord.new (.number 1) "1900-01-01",
    { OpinionRecord.new (.number 2) "1901-01-01" with cited := .ofIds [.number 1] }]

/-- Two opinions can be each other's parents without a loop of citations, since the earlier one has
none to cite. Of the five the third and the fourth cite each other, and each is the parent of the
other as its latest authority. -/
theorem ascents_twoRecords_fiveRecords :
    (∃ g, ofRecords twoRecords = .ok g ∧ g.loops = [] ∧ g.AscentsEnd ∧
      g.genealogy.ClosedLoop [⟨0, 1, 0, .latestCitingCase⟩, ⟨1, 0, 0, .latestAuthority⟩]) ∧
    ∃ g, ofRecords fiveRecords = .ok g ∧
      g.genealogy.ClosedLoop [⟨2, 3, 2, .latestAuthority⟩, ⟨3, 2, 2, .latestAuthority⟩] ∧
      ∃ ids ∈ g.loops, ∀ p ∈ [(⟨2, 3, 2, .latestAuthority⟩ : ParentLink),
        ⟨3, 2, 2, .latestAuthority⟩], ∃ a ∈ ids, g.idAt? p.child = some a := by
  constructor
  · obtain ⟨g, hok, hboth⟩ := exists_ok_of_map_toOption (x := ofRecords twoRecords)
      (f := fun g => (g.loops, g.genealogy.links))
      (b := ([], [⟨0, 1, 0, .latestCitingCase⟩, ⟨1, 0, 0, .latestAuthority⟩])) (by cbv)
    obtain ⟨hloops, hlinks⟩ := Prod.mk.inj hboth
    refine ⟨g, hok, hloops, (ofRecords_ascents hok).1 hloops, by simp, ?_, by simp, rfl⟩
    exact fun p hp => hlinks ▸ hp
  · obtain ⟨g, hok, hlinks⟩ := exists_ok_of_map_toOption (x := ofRecords fiveRecords)
      (f := fun g => (g.genealogy.links.drop 2).take 2)
      (b := [⟨2, 3, 2, .latestAuthority⟩, ⟨3, 2, 2, .latestAuthority⟩]) (by cbv)
    have hclosed : g.genealogy.ClosedLoop
        [⟨2, 3, 2, .latestAuthority⟩, ⟨3, 2, 2, .latestAuthority⟩] := by
      refine ⟨by simp, fun p hp => ?_, by simp, rfl⟩
      rw [← hlinks] at hp
      exact List.mem_of_mem_drop (List.mem_of_mem_take hp)
    exact ⟨g, hok, hclosed, (ofRecords_ascents hok).2 _ hclosed (by decide)⟩

end Network

end Precedent
