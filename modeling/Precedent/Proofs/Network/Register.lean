import Precedent.Proofs.Network.Resolution
import Precedent.Proofs.Network.Transpose

/-!
# Precedent.Proofs.Network.Register

**What the register holds after some citations, and after all of them.** When citations have been
entered in their order up to some point (`after`), the links are those that the citations so far
have opened, each of them mutual if the reverse citation has been seen; the rows hold what has been
cited, each entry with the slot that its link has in the end. One more citation finds the link of
its reverse by the key, since no other pair of opinions has that key, or else opens a link.
-/

namespace Precedent

/-! ### Keys of links -/

namespace LinkKey

variable {a b a' b' : OpinionId}

theorem of_comm (a b : OpinionId) : of a b = of b a := by
  unfold of
  by_cases hab : (compare a b).isLE = true <;> by_cases hba : (compare b a).isLE = true
  · obtain rfl : a = b := Std.LawfulEqOrd.eq_of_compare (Std.OrientedCmp.isLE_antisymm hab hba)
    rfl
  · rw [if_pos hab, if_neg hba]
  · rw [if_neg hab, if_pos hba]
  · have hswap : compare a b = (compare b a).swap := Std.OrientedCmp.eq_swap
    rw [hswap] at hab
    cases hcmp : compare b a <;> simp_all

/-- Two pairs of identifiers have one key if they are the same pair, either way around. -/
theorem of_eq_of_iff : of a b = of a' b' ↔ (a = a' ∧ b = b') ∨ (a = b' ∧ b = a') := by
  constructor
  · intro heq
    unfold of at heq
    by_cases hab : (compare a b).isLE = true <;> by_cases hab' : (compare a' b').isLE = true <;>
      simp only [hab, hab', if_true, if_false, mk.injEq, Bool.false_eq_true] at heq <;> tauto
  · intro hor
    rcases hor with ⟨rfl, rfl⟩ | ⟨rfl, rfl⟩
    · rfl
    · exact of_comm a b

end LinkKey

namespace Citing

variable (c : Citing) (ids : Nat → OpinionId)

/-! ### The state of the register -/

/-- The link of an opening citation when some citations have been seen. -/
def linkAfter (seen : List (Nat × Nat)) (e : Nat × Nat) : Link where
  key := .of (ids e.1) (ids e.2)
  citing := e.1
  cited := e.2
  isMutual := decide ((e.2, e.1) ∈ seen)

/-- The links when some citations have been seen. -/
def linksAfter (seen : List (Nat × Nat)) : List Link :=
  (seen.filter c.opens).map (linkAfter ids seen)

/-- The register when some citations have been entered, and the rows are those given. -/
def after (seen : List (Nat × Nat)) (rows : List (List (Nat × Nat))) (last : List (Nat × Nat)) :
    Register where
  links := (c.linksAfter ids seen).toArray
  cites := .writing rows last
  folded := seen.countP fun e => !c.opens e

variable {c ids} {i j : Nat} {seen rest : List (Nat × Nat)}

@[simp] theorem length_linksAfter (seen : List (Nat × Nat)) :
    (c.linksAfter ids seen).length = (seen.filter c.opens).length := List.length_map _

/-! ### Looking up a key -/

section Split

variable (hids : ∀ i < c.size, ∀ j < c.size, ids i = ids j → i = j)
  (hsplit : c.citations = seen ++ (i, j) :: rest)
include hids hsplit

/-- Among the links so far only that of the reverse citation has the key of a citation. -/
theorem key_eq_iff {e : Nat × Nat} (he : e ∈ seen) :
    LinkKey.of (ids e.1) (ids e.2) = LinkKey.of (ids i) (ids j) ↔ e = (j, i) := by
  have hij := cites_of_split hsplit
  have hcites : c.cites e.1 e.2 = true :=
    mem_citations.mp (hsplit ▸ List.mem_append_left _ he)
  rw [LinkKey.of_eq_of_iff]
  constructor
  · intro hor
    rcases hor with ⟨h1, h2⟩ | ⟨h1, h2⟩
    · have heq : e = (i, j) := Prod.ext (hids _ (c.left_lt hcites) _ (c.left_lt hij) h1)
        (hids _ (c.right_lt hcites) _ (c.right_lt hij) h2)
      exact absurd (heq ▸ he) (not_mem_of_split hsplit)
    · exact Prod.ext (hids _ (c.left_lt hcites) _ (c.right_lt hij) h1)
        (hids _ (c.right_lt hcites) _ (c.left_lt hij) h2)
  · intro heq
    subst heq
    exact Or.inr ⟨rfl, rfl⟩

/-- A citation that opens a link finds none with its key. -/
theorem findIdx?_of_opens (hopens : c.opens (i, j) = true) :
    (c.linksAfter ids seen).findIdx? (fun l => l.key == .of (ids i) (ids j)) = none := by
  rw [List.findIdx?_eq_none_iff]
  intro l hl
  obtain ⟨e, he, rfl⟩ := List.mem_map.mp hl
  have hmem := List.mem_of_mem_filter he
  refine beq_false_of_ne fun hkey => ?_
  obtain rfl := (key_eq_iff hids hsplit hmem).mp hkey
  exact (opens_of_split hsplit).mp hopens hmem

/-- A citation that opens no link finds the link of its reverse. -/
theorem findIdx?_of_not_opens (hopens : ¬ c.opens (i, j) = true) :
    (c.linksAfter ids seen).findIdx? (fun l => l.key == .of (ids i) (ids j)) =
      some (c.slot i j) := by
  have hlt := List.idxOf_lt_length_iff.mpr (reverse_mem_filter hsplit hopens)
  rw [slot_of_not_opens hsplit hopens, List.findIdx?_eq_some_iff_getElem]
  refine ⟨by rwa [length_linksAfter], ?_, fun m hm => ?_⟩
  · simp only [linksAfter, List.getElem_map, List.getElem_idxOf]
    exact beq_of_eq (LinkKey.of_comm _ _)
  · have hmem := List.getElem_mem (hm.trans hlt)
    have hne := List.not_of_lt_findIdx hm
    rw [beq_eq_false_iff_ne] at hne
    simp only [linksAfter, List.getElem_map, linkAfter, beq_iff_eq]
    rwa [key_eq_iff hids hsplit (List.mem_of_mem_filter hmem)]

end Split

/-! ### One more citation -/

theorem linkAfter_append {e : Nat × Nat} (h : e ≠ (j, i)) :
    linkAfter ids (seen ++ [(i, j)]) e = linkAfter ids seen e := by
  have hne : (e.2, e.1) ≠ (i, j) := fun heq => h (Prod.ext (Prod.mk.inj heq).2 (Prod.mk.inj heq).1)
  simp [linkAfter, hne]

section Split

variable (hsplit : c.citations = seen ++ (i, j) :: rest)
include hsplit

theorem linksAfter_append_of_opens (hopens : c.opens (i, j) = true) :
    c.linksAfter ids (seen ++ [(i, j)]) =
      c.linksAfter ids seen ++ [⟨.of (ids i) (ids j), i, j, false⟩] := by
  have hreverse : (j, i) ∉ seen := (opens_of_split hsplit).mp hopens
  have hne := c.ne (cites_of_split hsplit)
  rw [linksAfter, List.filter_append, List.filter_singleton, hopens, List.map_append, linksAfter]
  congr 1
  · refine List.map_congr_left fun e he => linkAfter_append fun heq => ?_
    exact hreverse (heq ▸ List.mem_of_mem_filter he)
  · simp [linkAfter, hreverse, hne]

theorem linksAfter_append_of_not_opens (hopens : ¬ c.opens (i, j) = true) :
    c.linksAfter ids (seen ++ [(i, j)]) =
      (c.linksAfter ids seen).modify (c.slot i j) fun l => { l with isMutual := true } := by
  have hlt := List.idxOf_lt_length_iff.mpr (reverse_mem_filter hsplit hopens)
  have hnodup : (seen.filter c.opens).Nodup := by
    have hall := c.nodup_citations
    rw [hsplit] at hall
    exact (List.nodup_append.mp hall).1.filter _
  rw [slot_of_not_opens hsplit hopens, linksAfter, List.filter_append,
    List.filter_cons_of_neg hopens, List.filter_nil, List.append_nil, linksAfter]
  apply List.ext_getElem?
  intro m
  rw [List.getElem?_map, List.getElem?_modify, List.getElem?_map]
  by_cases hm : (seen.filter c.opens).idxOf (j, i) = m
  · -- The link of the reverse citation becomes mutual.
    subst hm
    rw [List.getElem?_eq_getElem hlt, List.getElem_idxOf]
    simp [linkAfter]
  · -- The other links stay.
    simp only [if_neg hm, id_map']
    cases he : (seen.filter c.opens)[m]? with
    | none => rfl
    | some e =>
        refine congrArg some (linkAfter_append fun heq => hm ?_)
        obtain ⟨hlt', rfl⟩ := List.getElem?_eq_some_iff.mp he
        rw [← heq, hnodup.idxOf_getElem]

end Split

/-- Entering one more citation. -/
theorem enter_after (hids : ∀ i < c.size, ∀ j < c.size, ids i = ids j → i = j)
    (hsplit : c.citations = seen ++ (i, j) :: rest) (rows : List (List (Nat × Nat)))
    (last : List (Nat × Nat)) {citing cited : Opinion} (hi : citing.index = i)
    (hj : cited.index = j) (hciting : citing.id = ids i) (hcited : cited.id = ids j) :
    Register.enter citing (c.after ids seen rows last) cited =
      c.after ids (seen ++ [(i, j)]) rows (last ++ [(j, c.slot i j)]) := by
  rw [Register.enter, hciting, hcited, hi, hj]
  simp only [after, List.findIdx?_toArray]
  by_cases hopens : c.opens (i, j) = true
  · -- Nothing has the key yet, and the link comes behind the others.
    rw [findIdx?_of_opens hids hsplit hopens, slot_of_opens hsplit hopens,
      linksAfter_append_of_opens hsplit hopens]
    simp [Adjacency.push_writing, hopens]
  · -- The reverse citation has opened the link, which becomes mutual.
    rw [findIdx?_of_not_opens hids hsplit hopens, linksAfter_append_of_not_opens hsplit hopens]
    simp [Adjacency.push_writing, hopens]

/-! ### All citations -/

/-- The row of what an opinion cites, with the slots of the links. -/
def citedRow (c : Citing) (i : Nat) : List (Nat × Nat) := (c.cited i).map fun j => (j, c.slot i j)

/-- The row of what cites an opinion, with the slots of the links. -/
def citedByRow (c : Citing) (j : Nat) : List (Nat × Nat) :=
  (c.citedBy j).map fun i => (i, c.slot i j)

/-- The citations of the first opinions. -/
def citationsBefore (c : Citing) (i : Nat) : List (Nat × Nat) :=
  (List.range i).flatMap c.citationsOf

/-- The links of the finished network. -/
def links (c : Citing) (ids : Nat → OpinionId) : List Link := c.linksAfter ids c.citations

theorem citationsBefore_succ (i : Nat) :
    c.citationsBefore (i + 1) = c.citationsBefore i ++ c.citationsOf i := by
  rw [citationsBefore, List.range_succ, List.flatMap_append, List.flatMap_singleton,
    citationsBefore]

theorem citations_eq_append (h : i < c.size) :
    ∃ later, c.citations = c.citationsBefore (i + 1) ++ later := by
  obtain ⟨k, hk⟩ := Nat.exists_eq_add_of_lt h
  refine ⟨((List.range k).map (i + 1 + ·)).flatMap c.citationsOf, ?_⟩
  rw [citations, show c.size = i + 1 + k by omega, List.range_add, List.flatMap_append,
    citationsBefore]

section Opinions

variable {opinions : List Opinion}

/-- The identifier of the opinion at an index. -/
def idAt (opinions : List Opinion) (i : Nat) : OpinionId := opinions[i]?.elim default Opinion.id

theorem idAt_index (h : WellPlaced opinions) {o : Opinion} (ho : o ∈ opinions) :
    idAt opinions o.index = o.id := by
  rw [idAt, h.getElem?_index ho]
  rfl

theorem idAt_inj (h : WellPlaced opinions) :
    ∀ i < (ofOpinions opinions).size, ∀ j < (ofOpinions opinions).size,
      idAt opinions i = idAt opinions j → i = j := by
  intro i hi j hj heq
  have hi' := List.getElem?_eq_getElem (l := opinions) hi
  have hj' := List.getElem?_eq_getElem (l := opinions) hj
  rw [idAt, idAt, hi', hj'] at heq
  have hsame := h.eq_of_id (List.getElem_mem hi) (List.getElem_mem hj) heq
  rw [← h.index_eq hi', hsame, h.index_eq hj']

/-- Entering citations of one opinion, one after the other. -/
theorem foldl_enter_after (h : WellPlaced opinions) {o : Opinion} (ho : o ∈ opinions)
    {later : List (Nat × Nat)} (rows : List (List (Nat × Nat))) :
    ∀ (targets : List Opinion) (seen last : List (Nat × Nat)), (∀ b ∈ targets, b ∈ opinions) →
      (ofOpinions opinions).citations =
        seen ++ targets.map (fun b => (o.index, b.index)) ++ later →
      targets.foldl (Register.enter o)
          ((ofOpinions opinions).after (idAt opinions) seen rows last) =
        (ofOpinions opinions).after (idAt opinions)
          (seen ++ targets.map fun b => (o.index, b.index)) rows
          (last ++ targets.map fun b => (b.index, (ofOpinions opinions).slot o.index b.index))
  | [], seen, last, _, _ => by simp
  | b :: rest, seen, last, hmem, hsplit => by
      have hb := hmem b (List.mem_cons_self ..)
      -- The next citation is the first of those that are left.
      rw [List.map_cons, List.append_assoc, List.cons_append] at hsplit
      rw [List.foldl_cons, enter_after (idAt_inj h) hsplit rows last rfl rfl
        (idAt_index h ho).symm (idAt_index h hb).symm]
      rw [foldl_enter_after h ho rows rest _ _ (fun b hb => hmem b (List.mem_cons_of_mem _ hb))
        (by simpa using hsplit)]
      simp

/-- Entering all citations of one opinion. -/
theorem enterRow_after (h : WellPlaced opinions) {o : Opinion} (ho : opinions[i]? = some o) :
    ((ofOpinions opinions).after (idAt opinions) ((ofOpinions opinions).citationsBefore i)
        ((List.range i).map (ofOpinions opinions).citedRow) []).enterRow o
      (Resolution.of opinions o).targets =
    (ofOpinions opinions).after (idAt opinions) ((ofOpinions opinions).citationsBefore (i + 1))
      ((List.range (i + 1)).map (ofOpinions opinions).citedRow) [] := by
  obtain rfl := h.index_eq ho
  have htargets := Resolution.targets_of h ho
  have hcitations : (Resolution.of opinions o).targets.map (fun b => (o.index, b.index)) =
      (ofOpinions opinions).citationsOf o.index := by
    rw [citationsOf, ← htargets, List.map_map]
    rfl
  have hrow : (Resolution.of opinions o).targets.map
        (fun b => (b.index, (ofOpinions opinions).slot o.index b.index)) =
      (ofOpinions opinions).citedRow o.index := by
    rw [citedRow, ← htargets, List.map_map]
    rfl
  obtain ⟨later, hlater⟩ := citations_eq_append (c := ofOpinions opinions) (i := o.index)
    (List.getElem?_eq_some_iff.mp ho).1
  rw [citationsBefore_succ] at hlater
  rw [Register.enterRow, foldl_enter_after h (List.mem_of_getElem? ho) _ _ _ _
    (fun b hb => Resolution.mem_of_mem_targets h hb) (by rw [hcitations]; exact hlater),
    hcitations, hrow, List.nil_append, citationsBefore_succ, List.range_succ, List.map_append]
  simp [after, Adjacency.close_writing]

/-- Entering the citations of all opinions. -/
theorem enterAll_eq (h : WellPlaced opinions) :
    Register.enterAll (opinions.zip
      ((opinions.map (Resolution.of opinions)).map Resolution.targets)) =
    (ofOpinions opinions).after (idAt opinions) (ofOpinions opinions).citations
      ((List.range opinions.length).map (ofOpinions opinions).citedRow) [] := by
  have hprefix : ∀ i ≤ opinions.length,
      ((opinions.take i).map fun o => (o, (Resolution.of opinions o).targets)).foldl
        (fun r row => r.enterRow row.1 row.2) .empty =
      (ofOpinions opinions).after (idAt opinions) ((ofOpinions opinions).citationsBefore i)
        ((List.range i).map (ofOpinions opinions).citedRow) [] := by
    -- By induction on the number of opinions whose citations have been entered.
    intro i
    induction i with
    | zero => exact fun _ => rfl
    | succ i ih =>
        intro hi
        rw [List.take_succ_eq_append_getElem hi, List.map_append, List.foldl_append,
          ih (Nat.le_of_lt hi)]
        exact enterRow_after h (List.getElem?_eq_getElem hi)
  have hall := hprefix opinions.length (Nat.le_refl _)
  rw [List.take_length] at hall
  rw [Register.enterAll, List.map_map, ← List.map_prod_left_eq_zip]
  exact hall

end Opinions

end Citing

/-! ### The finished network -/

namespace Citing

variable {c : Citing} {i j slot : Nat}

theorem mem_citedRow : (j, slot) ∈ c.citedRow i ↔ c.cites i j = true ∧ slot = c.slot i j := by
  rw [citedRow, List.mem_map]
  constructor
  · intro hmem
    obtain ⟨j', hj, heq⟩ := hmem
    obtain ⟨rfl, rfl⟩ := Prod.mk.inj heq
    exact ⟨mem_cited.mp hj, rfl⟩
  · intro hboth
    obtain ⟨hcites, rfl⟩ := hboth
    exact ⟨j, mem_cited.mpr hcites, rfl⟩

theorem mem_citedByRow : (i, slot) ∈ c.citedByRow j ↔ c.cites i j = true ∧ slot = c.slot i j := by
  rw [citedByRow, List.mem_map]
  constructor
  · intro hmem
    obtain ⟨i', hi, heq⟩ := hmem
    obtain ⟨rfl, rfl⟩ := Prod.mk.inj heq
    exact ⟨mem_citedBy.mp hi, rfl⟩
  · intro hboth
    obtain ⟨hcites, rfl⟩ := hboth
    exact ⟨i, mem_citedBy.mpr hcites, rfl⟩

/-- An opinion that is not in the set cites nothing. -/
theorem citedRow_of_le (h : c.size ≤ i) : c.citedRow i = [] := by
  refine List.eq_nil_iff_forall_not_mem.mpr fun entry hentry => ?_
  exact Nat.not_lt_of_le h (c.left_lt (mem_citedRow.mp hentry).1)

theorem citedByRow_of_le (h : c.size ≤ j) : c.citedByRow j = [] := by
  refine List.eq_nil_iff_forall_not_mem.mpr fun entry hentry => ?_
  exact Nat.not_lt_of_le h (c.right_lt (mem_citedByRow.mp hentry).1)

theorem pairwise_citedRow : ((c.citedRow i).map Prod.fst).Pairwise (· < ·) := by
  rw [citedRow, List.map_map]
  exact List.pairwise_map.mpr pairwise_cited

theorem pairwise_citedByRow : ((c.citedByRow j).map Prod.fst).Pairwise (· < ·) := by
  rw [citedByRow, List.map_map]
  exact List.pairwise_map.mpr pairwise_citedBy

/-- Of the citations of one opinion at most one leads to a given opinion. -/
theorem reverseRow_citedRow :
    Adjacency.reverseRow ((c.citedRow i).map fun entry => (i, entry)) j =
      if c.cites i j then [(i, c.slot i j)] else [] := by
  have hnodup : (c.cited i).Nodup := List.nodup_range.filter _
  rw [Adjacency.reverseRow, citedRow, List.map_map, List.filterMap_map]
  by_cases hcites : c.cites i j = true
  · -- The opinion is cited once, so what stands before and behind it gives nothing.
    obtain ⟨front, back, hsplit⟩ := List.append_of_mem (mem_cited.mpr hcites)
    rw [hsplit, List.nodup_append, List.nodup_cons] at hnodup
    obtain ⟨-, ⟨hback, -⟩, hfront⟩ := hnodup
    rw [if_pos hcites, hsplit, List.filterMap_append, List.filterMap_cons_some (by simp; rfl),
      List.filterMap_eq_nil_iff.mpr, List.filterMap_eq_nil_iff.mpr]
    · rfl
    · intro t ht
      have hne : t ≠ j := fun heq => hback (heq ▸ ht)
      simp [hne]
    · intro t ht
      have hne : t ≠ j := hfront t ht j (List.mem_cons_self ..)
      simp [hne]
  · rw [if_neg hcites, List.filterMap_eq_nil_iff]
    intro t ht
    have hne : t ≠ j := fun heq => hcites (mem_cited.mp (heq ▸ ht))
    simp [hne]

theorem citedRow_lt : ∀ i < c.size, ∀ entry ∈ c.citedRow i, entry.1 < c.size := by
  intro i _ entry hentry
  obtain ⟨j, hj, rfl⟩ := List.mem_map.mp hentry
  exact c.right_lt (mem_cited.mp hj)

/-- The reverse rows of what opinions cite are the rows of what cites them. -/
theorem transpose_citedRow (c : Citing) :
    (Adjacency.ofRows ((List.range c.size).map c.citedRow)).transpose c.size =
      .ofRows ((List.range c.size).map c.citedByRow) := by
  rw [Adjacency.transpose_ofRows citedRow_lt]
  refine congrArg Adjacency.ofRows (List.map_congr_left fun j _ => ?_)
  simp only [reverseRow_citedRow]
  rw [citedByRow, citedBy]
  induction List.range c.size with
  | nil => rfl
  | cons i rest ih =>
      rw [List.flatMap_cons, ih, List.filter_cons]
      by_cases hcites : c.cites i j = true
      · rw [if_pos hcites, if_pos hcites, List.map_cons, List.singleton_append]
      · rw [if_neg hcites, if_neg hcites, List.nil_append]

/-- There are as many entries in the reverse rows as in the rows. -/
theorem length_flatten_citedByRow (c : Citing) :
    ((List.range c.size).map c.citedByRow).flatten.length =
      ((List.range c.size).map c.citedRow).flatten.length := by
  rw [← Adjacency.size_ofRows, ← Adjacency.size_ofRows, ← transpose_citedRow,
    Adjacency.size_transpose_ofRows citedRow_lt]

end Citing

namespace Network

variable {opinions : List Opinion}

/-- The rows of a network hold what each opinion cites. -/
theorem cites_ofOpinions (h : WellPlaced opinions) :
    (ofOpinions opinions).cites =
      .ofRows ((List.range opinions.length).map (Citing.ofOpinions opinions).citedRow) := by
  rw [ofOpinions]
  dsimp only
  rw [Citing.enterAll_eq h]
  exact Adjacency.writing_nil _

/-- The reverse rows of a network hold what cites each opinion. -/
theorem citedBy_ofOpinions (h : WellPlaced opinions) :
    (ofOpinions opinions).citedBy =
      .ofRows ((List.range opinions.length).map (Citing.ofOpinions opinions).citedByRow) := by
  have hcites := cites_ofOpinions h
  rw [ofOpinions] at hcites ⊢
  dsimp only at hcites ⊢
  rw [hcites]
  exact Citing.transpose_citedRow (Citing.ofOpinions opinions)

/-- The link table of a network holds the links that its citations open. -/
theorem links_ofOpinions (h : WellPlaced opinions) :
    (ofOpinions opinions).links =
      ((Citing.ofOpinions opinions).links (Citing.idAt opinions)).toArray := by
  rw [ofOpinions]
  dsimp only
  rw [Citing.enterAll_eq h]
  rfl

/-- The citations that are folded are those that open no link. -/
theorem folded_ofOpinions (h : WellPlaced opinions) :
    (ofOpinions opinions).tally.folded =
      (Citing.ofOpinions opinions).citations.countP fun e =>
        !(Citing.ofOpinions opinions).opens e := by
  rw [ofOpinions]
  dsimp only
  rw [Citing.enterAll_eq h]
  rfl

end Network

end Precedent
