import Mathlib.Data.List.Chain
import Precedent.Proofs.Network.Chain
import Precedent.Proofs.Network.Drawn

/-!
# Precedent.Proofs.Network.Walk

**Citation walks from the latest opinion to the earliest.** A walk is the list of the opinions that
it stops at, each of which cites the next. A walk of some length visits an opinion when two chains
meet there, and crosses a citation when one chain leads to its citing and another one from its cited
opinion, with that length in all.
-/

namespace Precedent

/-! ### Lists of stops -/

section Stops

variable {step : Nat → Nat → Prop} {n i j : Nat}

/-- A list without gaps that starts at an index gives a chain to its last stop. -/
theorem chain_of_isChain {stops : List Nat} (hchain : (i :: stops).IsChain step)
    (hlast : (i :: stops).getLast? = some j) : Chain step i stops.length j := by
  induction stops generalizing i with
  | nil =>
      obtain rfl := Option.some.inj hlast
      exact .nil
  | cons k rest ih =>
      rw [List.isChain_cons_cons] at hchain
      rw [List.getLast?_cons_cons] at hlast
      exact (ih hchain.2 hlast).cons hchain.1

namespace Chain

/-- The stops of a chain after its start. -/
theorem exists_stops_after (h : Chain step i n j) : ∃ stops : List Nat,
    stops.length = n ∧ (i :: stops).IsChain step ∧ (i :: stops).getLast? = some j := by
  induction h with
  | nil => exact ⟨[], rfl, List.isChain_singleton i, rfl⟩
  | @snoc n j k _ hstep ih =>
      obtain ⟨stops, rfl, hchain, hlast⟩ := ih
      refine ⟨stops ++ [k], List.length_append, ?_, ?_⟩
      · rw [← List.cons_append, List.isChain_append]
        refine ⟨hchain, List.isChain_singleton k, fun x hx y hy => ?_⟩
        rw [hlast] at hx
        obtain rfl := Option.some.inj hx
        obtain rfl := Option.some.inj hy
        exact hstep
      · rw [← List.cons_append, List.getLast?_append, List.getLast?_singleton]
        rfl

/-- The stops of a chain before its end. -/
theorem exists_stops_before (h : Chain step i n j) : ∃ stops : List Nat,
    stops.length = n ∧ (stops ++ [j]).IsChain step ∧ (stops ++ [j]).head? = some i := by
  induction h with
  | nil => exact ⟨[], rfl, List.isChain_singleton i, rfl⟩
  | @snoc n j k _ hstep ih =>
      obtain ⟨stops, rfl, hchain, hhead⟩ := ih
      refine ⟨stops ++ [j], List.length_append, ?_, ?_⟩
      · rw [List.append_assoc, List.singleton_append, List.isChain_append_cons_cons]
        exact ⟨hchain, hstep, List.isChain_singleton k⟩
      · rw [List.head?_append, hhead]
        rfl

end Chain

end Stops

/-! ### Walks -/

/-- A walk along citations from the latest opinion to the earliest. -/
structure CitationWalk (g : Network) where
  /-- The opinions that the walk stops at, one after the other. -/
  stops : List Nat
  /-- Each of them cites the next. -/
  isChain : stops.IsChain g.Cites
  head : stops.head? = some g.latest
  last : stops.getLast? = some Network.earliest

namespace CitationWalk

variable {g : Network} {i j n : Nat}

/-- The number of citations that a walk crosses. -/
def length (w : CitationWalk g) : Nat := w.stops.length - 1

/-- A walk stops at an opinion. -/
def Visits (w : CitationWalk g) (i : Nat) : Prop := i ∈ w.stops

/-- A walk leads from one opinion right to another one. -/
def Crosses (w : CitationWalk g) (i j : Nat) : Prop := [i, j] <:+: w.stops

/-- What a walk crosses is a citation. -/
theorem Crosses.cites {w : CitationWalk g} (h : w.Crosses i j) : g.Cites i j := by
  have hchain := w.isChain.infix h
  rw [List.isChain_cons_cons] at hchain
  exact hchain.1

theorem Crosses.visits_citing {w : CitationWalk g} (h : w.Crosses i j) : w.Visits i :=
  h.subset (List.mem_cons_self ..)

theorem Crosses.visits_cited {w : CitationWalk g} (h : w.Crosses i j) : w.Visits j :=
  h.subset (List.mem_cons_of_mem _ (List.mem_cons_self ..))

/-- The chain from the latest opinion to a stop. -/
theorem chain_before (w : CitationWalk g) {before after : List Nat}
    (hsplit : w.stops = before ++ i :: after) : Chain g.Cites g.latest before.length i := by
  have hchain := w.isChain
  have hhead := w.head
  rw [hsplit, List.isChain_split] at hchain
  rw [hsplit] at hhead
  cases before with
  | nil =>
      obtain rfl := Option.some.inj hhead
      exact .nil
  | cons k rest =>
      obtain rfl := Option.some.inj hhead
      have hlast : (g.latest :: rest ++ [i]).getLast? = some i := List.getLast?_concat
      have hbefore : Chain g.Cites g.latest (rest ++ [i]).length i :=
        chain_of_isChain hchain.1 hlast
      rwa [List.length_append] at hbefore

/-- The chain from a stop to the earliest opinion. -/
theorem chain_after (w : CitationWalk g) {before after : List Nat}
    (hsplit : w.stops = before ++ i :: after) : Chain g.Cites i after.length Network.earliest := by
  have hchain := w.isChain
  have hlast := w.last
  rw [hsplit, List.isChain_split] at hchain
  rw [hsplit, List.getLast?_append_cons] at hlast
  exact chain_of_isChain hchain.2 hlast

/-- **A walk visits an opinion where two chains meet.** -/
theorem exists_visits_iff :
    (∃ w : CitationWalk g, w.length ≤ n ∧ w.Visits i) ↔
      ∃ b f, Chain g.Cites g.latest b i ∧ Chain g.Cites i f Network.earliest ∧ b + f ≤ n := by
  constructor
  · intro h
    obtain ⟨w, hlength, hvisits⟩ := h
    obtain ⟨before, after, hsplit⟩ := List.append_of_mem hvisits
    refine ⟨_, _, w.chain_before hsplit, w.chain_after hsplit, ?_⟩
    rw [length, hsplit, List.length_append, List.length_cons] at hlength
    omega
  · intro h
    obtain ⟨b, f, hbackward, hforward, hle⟩ := h
    obtain ⟨before, rfl, hbefore, hhead⟩ := hbackward.exists_stops_before
    obtain ⟨after, rfl, hafter, hlast⟩ := hforward.exists_stops_after
    refine ⟨⟨before ++ i :: after, ?_, ?_, ?_⟩, ?_, ?_⟩
    · exact List.isChain_split.mpr ⟨hbefore, hafter⟩
    · rw [← hhead]
      cases before <;> rfl
    · rw [List.getLast?_append_cons, hlast]
    · rw [length, List.length_append, List.length_cons]
      omega
    · exact List.mem_append_right _ (List.mem_cons_self ..)

/-- **A walk crosses a citation between two chains.** -/
theorem exists_crosses_iff :
    (∃ w : CitationWalk g, w.length ≤ n ∧ w.Crosses i j) ↔
      g.Cites i j ∧ ∃ b f, Chain g.Cites g.latest b i ∧ Chain g.Cites j f Network.earliest ∧
        b + f + 1 ≤ n := by
  constructor
  · intro h
    obtain ⟨w, hlength, hcrosses⟩ := h
    refine ⟨hcrosses.cites, ?_⟩
    obtain ⟨before, after, hsplit⟩ := hcrosses
    have hsplit' : w.stops = before ++ i :: (j :: after) := by simpa using hsplit.symm
    have hsplit'' : w.stops = (before ++ [i]) ++ j :: after := by simpa using hsplit.symm
    refine ⟨_, _, w.chain_before hsplit', w.chain_after hsplit'', ?_⟩
    rw [length, hsplit', List.length_append, List.length_cons, List.length_cons] at hlength
    omega
  · intro h
    obtain ⟨hcites, b, f, hbackward, hforward, hle⟩ := h
    obtain ⟨before, rfl, hbefore, hhead⟩ := hbackward.exists_stops_before
    obtain ⟨after, rfl, hafter, hlast⟩ := hforward.exists_stops_after
    refine ⟨⟨before ++ i :: j :: after, ?_, ?_, ?_⟩, ?_, ⟨before, after, by simp⟩⟩
    · exact List.isChain_append_cons_cons.mpr ⟨hbefore, hcites, hafter⟩
    · rw [← hhead]
      cases before <;> rfl
    · rw [List.getLast?_append_cons, List.getLast?_cons_cons, hlast]
    · rw [length, List.length_append, List.length_cons, List.length_cons]
      omega

end CitationWalk

end Precedent
