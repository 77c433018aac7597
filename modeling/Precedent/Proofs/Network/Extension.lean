import Precedent.Proofs.Network.Nearness

/-!
# Precedent.Proofs.Network.Extension

**More citations bring everything nearer.** Of two networks of the same opinions one may hold all
citations of the other and some more. Every chain is then a chain there as well, so no distance and
no depth grows, and no degree. A link may have another slot and another citing opinion, and may
stand for one more citation; but two opinions that are joined stay joined, and the citations that
one link stands for are still those of one link.
-/

namespace Precedent

namespace Network

/-- A network of the same opinions in the same order holds all citations that are held here. -/
structure ExtendedBy (g g' : Network) : Prop where
  drawn : g.Drawn
  drawn' : g'.Drawn
  ids : g'.opinions.map Opinion.id = g.opinions.map Opinion.id
  cites : ∀ {i j}, g.Cites i j → g'.Cites i j

namespace ExtendedBy

variable {g g' : Network} (h : g.ExtendedBy g') {i j n slot slot' : Nat}
include h

theorem size_eq : g'.size = g.size := by
  simpa [size] using congrArg Array.size h.ids

theorem latest_eq : g'.latest = g.latest := by rw [latest, latest, h.size_eq]

theorem chain (hchain : Chain g.Cites i n j) : Chain g'.Cites i n j := hchain.mono h.cites

/-! ### Links -/

theorem exists_joinsAt (hjoins : g.JoinsAt slot i j) : ∃ slot', g'.JoinsAt slot' i j := by
  refine h.drawn'.exists_slot ?_
  rcases h.drawn.joinsAt_iff.mp hjoins with ⟨hcites, -⟩ | ⟨hcites, -⟩
  · exact Or.inl (h.cites hcites)
  · exact Or.inr (h.cites hcites)

/-- The citations of the link of two opinions are citations of their link in the other network. -/
theorem slot_eq (hjoins : g.JoinsAt slot i j) (hjoins' : g'.JoinsAt slot' i j) {v w : Nat}
    (hcites : g.Cites v w) (hslot : slot = g.citing.slot v w) : slot' = g'.citing.slot v w := by
  have hvw : g.JoinsAt slot v w := h.drawn.joinsAt_iff.mpr (Or.inl ⟨hcites, hslot⟩)
  have hvw' : g'.JoinsAt (g'.citing.slot v w) v w :=
    h.drawn'.joinsAt_iff.mpr (Or.inl ⟨h.cites hcites, rfl⟩)
  rcases hjoins.eq_or_swap hvw with ⟨rfl, rfl⟩ | ⟨rfl, rfl⟩
  · exact h.drawn'.slot_unique hjoins' hvw'
  · exact h.drawn'.slot_unique hjoins'.symm hvw'

/-! ### Distances and degrees -/

theorem forward_atMost (i : Nat) :
    AtMost (g'.distances.forward.at? i) (g.distances.forward.at? i) :=
  .of_least h.drawn.forward_least h.drawn'.forward_least fun _ => h.chain

theorem backward_atMost (i : Nat) :
    AtMost (g'.distances.backward.at? i) (g.distances.backward.at? i) := by
  refine .of_least h.drawn.backward_least h.drawn'.backward_least fun n hchain => ?_
  rw [h.latest_eq]
  exact h.chain hchain

theorem degree_node_le (hi : i < g.size) : g'.degrees.node i ≤ g.degrees.node i := by
  have hi' : i < g'.size := by rwa [h.size_eq]
  rw [degrees, degrees, Distances.node_degrees hi, Distances.node_degrees hi', h.size_eq]
  exact Degree.ofNode_mono (h.forward_atMost i) (h.backward_atMost i)

/-- The link of two opinions is not farther in the network with more citations. -/
theorem degree_link_le (hjoins : g.JoinsAt slot i j) (hjoins' : g'.JoinsAt slot' i j) :
    g'.degrees.link slot' ≤ g.degrees.link slot := by
  rw [degrees, degrees, Distances.link_degrees hjoins.slot_lt,
    Distances.link_degrees hjoins'.slot_lt]
  refine Degree.ofLink_mono ?_ ?_
  · refine .of_least h.drawn.linkForward_least h.drawn'.linkForward_least ?_
    rintro _ ⟨v, w, m, hcites, hat, hchain, rfl⟩
    exact ⟨v, w, m, h.cites hcites, h.slot_eq hjoins hjoins' hcites hat, h.chain hchain, rfl⟩
  · refine .of_least h.drawn.linkBackward_least h.drawn'.linkBackward_least ?_
    rintro _ ⟨v, w, m, hcites, hat, hchain, rfl⟩
    rw [← h.latest_eq] at hchain
    exact ⟨v, w, m, h.cites hcites, h.slot_eq hjoins hjoins' hcites hat, h.chain hchain, rfl⟩

end ExtendedBy

/-! ### Records that cite more -/

end Network

/-- The records of one list make every citation of an opinion of that list that is made there in
another list as well. -/
def CitationsWithin (records records' : List OpinionRecord) : Prop :=
  ∀ r ∈ records, ∀ r' ∈ records', r'.id = r.id →
    ∀ id ∈ r.cited.ids, id ≠ r.id → id ∈ records.map OpinionRecord.id → id ∈ r'.cited.ids

instance (records records' : List OpinionRecord) : Decidable (CitationsWithin records records') :=
  inferInstanceAs (Decidable (∀ r ∈ records, _))

namespace Network

theorem extendedBy_of_records {records records' : List OpinionRecord} {g g' : Network}
    (h : ofRecords records = .ok g) (h' : ofRecords records' = .ok g')
    (hids : g'.opinions.map Opinion.id = g.opinions.map Opinion.id)
    (hcites : CitationsWithin records records') : g.ExtendedBy g' where
  drawn := (ofRecords_drawn h).2
  drawn' := (ofRecords_drawn h').2
  ids := hids
  cites := by
    rintro i j ⟨hne, o, p, ho, hp, hid⟩
    -- At each place there is an opinion of the same identifier in the other network.
    have hat : ∀ {i : Nat} {o : Opinion}, g.opinions[i]? = some o →
        ∃ o', g'.opinions[i]? = some o' ∧ o'.id = o.id := by
      intro i o ho
      have hmap := congrArg (·[i]?) hids
      simpa [Array.getElem?_map, ho] using hmap
    obtain ⟨o', ho', hoid⟩ := hat ho
    obtain ⟨p', hp', hpid⟩ := hat hp
    have hpo : p.id ≠ o.id := (ofRecords_drawn h).2.wellPlaced.id_ne
      (Array.getElem?_toList.trans ho) (Array.getElem?_toList.trans hp) hne
    refine ⟨hne, o', p', ho', hp', ?_⟩
    rw [hpid]
    exact hcites _ (record_mem_of_mem_opinions h (Array.mem_of_getElem? ho)) _
      (record_mem_of_mem_opinions h' (Array.mem_of_getElem? ho')) hoid _ hid hpo
      (List.mem_map_of_mem (record_mem_of_mem_opinions h (Array.mem_of_getElem? hp)))

end Network

end Precedent
