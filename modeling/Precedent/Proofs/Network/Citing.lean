import Mathlib.Data.List.Nodup
import Mathlib.Data.Prod.Lex

/-!
# Precedent.Proofs.Network.Citing

**Who cites whom, and which citations open links.** All that the arrays of a network hold follows
from one relation between indices. Its citations stand in one order, by citing and then by cited
opinion. A citation opens a link unless it leads to an earlier opinion that cites back, so two
opinions that are joined have exactly one opening citation between them; its place among the opening
citations is the slot of their link.
-/

namespace Precedent

/-- Who cites whom in a set of opinions, each of them given by its index. No opinion cites itself.
-/
@[ext]
structure Citing where
  size : Nat
  cites : Nat → Nat → Bool
  ne : ∀ {i j}, cites i j = true → i ≠ j
  left_lt : ∀ {i j}, cites i j = true → i < size
  right_lt : ∀ {i j}, cites i j = true → j < size

namespace Citing

/-- The order of citations: by citing, then by cited opinion. -/
abbrev Before : Nat × Nat → Nat × Nat → Prop := Prod.Lex (· < ·) (· < ·)

variable (c : Citing)

/-- What an opinion cites. -/
def cited (i : Nat) : List Nat := (List.range c.size).filter fun j => c.cites i j

/-- What cites an opinion. -/
def citedBy (j : Nat) : List Nat := (List.range c.size).filter fun i => c.cites i j

/-- The citations of an opinion. -/
def citationsOf (i : Nat) : List (Nat × Nat) := (c.cited i).map fun j => (i, j)

/-- All citations in their order. -/
def citations : List (Nat × Nat) := (List.range c.size).flatMap c.citationsOf

/-- Whether a citation opens a link: no earlier opinion is cited that cites back. -/
def opens (e : Nat × Nat) : Bool := !(c.cites e.2 e.1 && e.2 < e.1)

/-- The citations that open links. -/
def openings : List (Nat × Nat) := c.citations.filter c.opens

/-- Of a citation and its reverse, the one that opens their link. -/
def opening (i j : Nat) : Nat × Nat := if c.opens (i, j) then (i, j) else (j, i)

/-- The slot of the link that a citation belongs to. -/
def slot (i j : Nat) : Nat := c.openings.idxOf (c.opening i j)

variable {c} {i j : Nat}

/-! ### Citations -/

theorem mem_cited : j ∈ c.cited i ↔ c.cites i j = true := by
  rw [cited, List.mem_filter, List.mem_range, and_iff_right_iff_imp]
  exact c.right_lt

theorem mem_citedBy : i ∈ c.citedBy j ↔ c.cites i j = true := by
  rw [citedBy, List.mem_filter, List.mem_range, and_iff_right_iff_imp]
  exact c.left_lt

theorem pairwise_cited : (c.cited i).Pairwise (· < ·) := List.pairwise_lt_range.filter _

theorem pairwise_citedBy : (c.citedBy j).Pairwise (· < ·) := List.pairwise_lt_range.filter _

theorem mem_citationsOf {e : Nat × Nat} : e ∈ c.citationsOf i ↔ e.1 = i ∧ c.cites i e.2 = true := by
  rw [citationsOf, List.mem_map]
  constructor
  · intro hmem
    obtain ⟨j, hj, rfl⟩ := hmem
    exact ⟨rfl, mem_cited.mp hj⟩
  · intro hboth
    obtain ⟨rfl, hcites⟩ := hboth
    exact ⟨e.2, mem_cited.mpr hcites, rfl⟩

theorem mem_citations {e : Nat × Nat} : e ∈ c.citations ↔ c.cites e.1 e.2 = true := by
  rw [citations, List.mem_flatMap]
  constructor
  · intro hmem
    obtain ⟨i, -, he⟩ := hmem
    obtain ⟨rfl, hcites⟩ := mem_citationsOf.mp he
    exact hcites
  · intro hcites
    exact ⟨e.1, List.mem_range.mpr (c.left_lt hcites), mem_citationsOf.mpr ⟨rfl, hcites⟩⟩

/-- Citations come in increasing order. -/
theorem pairwise_citations : c.citations.Pairwise Before := by
  refine List.pairwise_flatMap.mpr ⟨fun i _ => ?_, ?_⟩
  · exact List.pairwise_map.mpr (pairwise_cited.imp fun hlt => Prod.Lex.right i hlt)
  · refine List.pairwise_lt_range.imp fun {i i'} hlt e he f hf => ?_
    obtain ⟨rfl, -⟩ := mem_citationsOf.mp he
    obtain ⟨rfl, -⟩ := mem_citationsOf.mp hf
    exact Prod.lex_def.mpr (Or.inl hlt)

theorem not_before_self (e : Nat × Nat) : ¬ Before e e := by
  intro h
  rcases Prod.lex_def.mp h with hlt | ⟨-, hlt⟩ <;> exact Nat.lt_irrefl _ hlt

theorem nodup_citations : c.citations.Nodup := by
  refine pairwise_citations.imp fun {e f} hbefore heq => ?_
  subst heq
  exact not_before_self e hbefore

section Split

variable {seen rest : List (Nat × Nat)} (hsplit : c.citations = seen ++ (i, j) :: rest)
include hsplit

theorem cites_of_split : c.cites i j = true :=
  mem_citations.mp (hsplit ▸ List.mem_append_right _ (List.mem_cons_self ..))

theorem not_mem_of_split : (i, j) ∉ seen := fun hmem => by
  have hnodup := c.nodup_citations
  rw [hsplit] at hnodup
  exact (List.nodup_append.mp hnodup).2.2 _ hmem _ (List.mem_cons_self ..) rfl

/-- The reverse of a citation has been seen if it leads to an earlier opinion that cites back. -/
theorem reverse_mem_of_split : (j, i) ∈ seen ↔ c.cites j i = true ∧ j < i := by
  have hpairwise := c.pairwise_citations
  rw [hsplit, List.pairwise_append] at hpairwise
  obtain ⟨-, hlater, hearlier⟩ := hpairwise
  have hne := c.ne (cites_of_split hsplit)
  constructor
  · intro hmem
    refine ⟨mem_citations.mp (hsplit ▸ List.mem_append_left _ hmem), ?_⟩
    rcases Prod.lex_def.mp (hearlier _ hmem _ (List.mem_cons_self ..)) with hlt | ⟨heq, -⟩
    · exact hlt
    · exact absurd heq.symm hne
  · intro hboth
    obtain ⟨hback, hlt⟩ := hboth
    have hmem : (j, i) ∈ c.citations := mem_citations.mpr hback
    rw [hsplit, List.mem_append, List.mem_cons] at hmem
    -- Citations come in order, and this one has the smaller citing opinion.
    rcases hmem with hmem | heq | hmem
    · exact hmem
    · exact absurd (Prod.mk.inj heq).1.symm hne
    · rcases Prod.lex_def.mp ((List.pairwise_cons.mp hlater).1 _ hmem) with hgt | ⟨heq, -⟩
      · exact absurd hgt (Nat.lt_asymm hlt)
      · exact absurd heq hne

theorem opens_of_split : c.opens (i, j) = true ↔ (j, i) ∉ seen := by
  rw [reverse_mem_of_split hsplit, opens, Bool.not_eq_true', ← Bool.not_eq_true]
  simp

end Split

/-! ### Openings -/

theorem opens_iff : c.opens (i, j) = true ↔ (c.cites j i = true → i ≤ j) := by
  simp [opens, Classical.or_iff_not_imp_left]

theorem mem_openings {e : Nat × Nat} :
    e ∈ c.openings ↔ c.cites e.1 e.2 = true ∧ (c.cites e.2 e.1 = true → e.1 ≤ e.2) := by
  rw [openings, List.mem_filter, mem_citations, opens_iff]

theorem pairwise_openings : c.openings.Pairwise Before := pairwise_citations.filter _

theorem nodup_openings : c.openings.Nodup := nodup_citations.filter _

/-- Of two opinions that cite each other exactly one opens the link, the earlier one. -/
theorem opening_comm (hij : c.cites i j = true) (hji : c.cites j i = true) :
    c.opening i j = c.opening j i := by
  have hne := c.ne hij
  simp only [opening, opens_iff, hij, hji, true_imp_iff]
  rcases Nat.lt_or_gt_of_ne hne with hlt | hgt
  · rw [if_pos (Nat.le_of_lt hlt), if_neg (Nat.not_le_of_lt hlt)]
  · rw [if_neg (Nat.not_le_of_lt hgt), if_pos (Nat.le_of_lt hgt)]

theorem slot_comm (hij : c.cites i j = true) (hji : c.cites j i = true) :
    c.slot i j = c.slot j i := by
  rw [slot, opening_comm hij hji, slot]

/-- The opening citation of two opinions that are joined is among those that open links. -/
theorem opening_mem (hij : c.cites i j = true) : c.opening i j ∈ c.openings := by
  by_cases hopens : c.opens (i, j) = true
  · rw [opening, if_pos hopens]
    exact mem_openings.mpr ⟨hij, opens_iff.mp hopens⟩
  · rw [opening, if_neg hopens]
    rw [opens_iff] at hopens
    push Not at hopens
    exact mem_openings.mpr ⟨hopens.1, fun _ => Nat.le_of_lt hopens.2⟩

section Split

variable {seen rest : List (Nat × Nat)} (hsplit : c.citations = seen ++ (i, j) :: rest)
include hsplit

/-- The link of a citation that opens it comes right after those that have been opened. -/
theorem slot_of_opens (hopens : c.opens (i, j) = true) :
    c.slot i j = (seen.filter c.opens).length := by
  have hnot : (i, j) ∉ seen.filter c.opens := fun hmem =>
    not_mem_of_split hsplit (List.mem_of_mem_filter hmem)
  rw [slot, opening, if_pos hopens, openings, hsplit, List.filter_append,
    List.idxOf_append_of_notMem hnot, List.filter_cons_of_pos hopens, List.idxOf_cons_self,
    Nat.add_zero]

/-- A citation that opens no link comes after the reverse citation that has opened it. -/
theorem reverse_mem_filter (hopens : ¬ c.opens (i, j) = true) : (j, i) ∈ seen.filter c.opens := by
  have hmem : (j, i) ∈ seen := by
    rwa [opens_of_split hsplit, not_not] at hopens
  have hlt := ((reverse_mem_of_split hsplit).mp hmem).2
  exact List.mem_filter.mpr ⟨hmem, opens_iff.mpr fun _ => Nat.le_of_lt hlt⟩

theorem slot_of_not_opens (hopens : ¬ c.opens (i, j) = true) :
    c.slot i j = (seen.filter c.opens).idxOf (j, i) := by
  rw [slot, opening, if_neg hopens, openings, hsplit, List.filter_append,
    List.idxOf_append_of_mem (reverse_mem_filter hsplit hopens)]

end Split

/-- There is a slot for each citation that opens a link, and no other. -/
theorem slot_lt_length (hij : c.cites i j = true) : c.slot i j < c.openings.length :=
  List.idxOf_lt_length_iff.mpr (opening_mem hij)

/-- The opening citation stands at the slot of the link. -/
theorem getElem?_slot (hij : c.cites i j = true) :
    c.openings[c.slot i j]? = some (c.opening i j) := by
  rw [List.getElem?_eq_getElem (slot_lt_length hij)]
  exact congrArg some (List.getElem_idxOf _)

end Citing

end Precedent
