import Mathlib.Algebra.Module.Submodule.Lattice
import Mathlib.Data.List.Nodup
import Mathlib.Data.List.Permutation
import Precedent.Document.Reader
import Precedent.Proofs.Document.Grammar

/-!
# Precedent.Proofs.Document.Acceptance

**A document is accepted if it belongs to the grammar.** Every reader accepts the values of one part
of the grammar and no others, whatever it makes of them. For a record that is so because taking up a
field succeeds or fails by its name and value alone, not by what has been taken up before.

The sample at the end is read by the equations of the functions involved. Some of these are the
library's and stand in files about other things, which are imported for that only.
-/

namespace Precedent

/-! ### Computations that succeed -/

section IsOk

variable {ε ε' α β : Type}

@[simp] theorem isOk_ok (a : α) : (.ok a : Except ε α).isOk = true := rfl

@[simp] theorem isOk_error (e : ε) : (.error e : Except ε α).isOk = false := rfl

@[simp] theorem isOk_map (f : α → β) (x : Except ε α) : (x.map f).isOk = x.isOk := by
  cases x <;> rfl

@[simp] theorem isOk_mapError (f : ε → ε') (x : Except ε α) : (x.mapError f).isOk = x.isOk := by
  cases x <;> rfl

@[simp] theorem isOk_ite (b : Bool) (a : α) (e : ε) :
    (if b then .ok a else .error e : Except ε α).isOk = b := by
  cases b <;> rfl

theorem isOk_iff {x : Except ε α} : x.isOk = true ↔ ∃ a, x = .ok a := by
  cases x <;> simp

theorem isOk_bind_iff {x : Except ε α} {f : α → Except ε β} :
    (x >>= f).isOk = true ↔ ∃ a, x = .ok a ∧ (f a).isOk = true := by
  cases x with
  | error e => simp [bind, Except.bind]
  | ok a => simp [bind, Except.bind]

/-- What follows succeeds or fails whatever it follows. -/
theorem isOk_bind_iff_of_forall {x : Except ε α} {f : α → Except ε β} {p : Prop}
    (h : ∀ a, (f a).isOk = true ↔ p) : (x >>= f).isOk = true ↔ x.isOk = true ∧ p := by
  rw [isOk_bind_iff, isOk_iff]
  simp only [h, exists_and_right]

/-- Going through a list succeeds if every item succeeds. -/
theorem isOk_mapM_iff {f : α → Except ε β} {as : List α} :
    (as.mapM f).isOk = true ↔ ∀ a ∈ as, (f a).isOk = true := by
  induction as with
  | nil => simp [pure, Except.pure]
  | cons a rest ih =>
      rw [List.mapM_cons, List.forall_mem_cons, ← ih]
      refine isOk_bind_iff_of_forall fun b => ?_
      rw [isOk_bind_iff, isOk_iff]
      simp [pure, Except.pure]

theorem isSome_mapM_iff {f : α → Option β} {as : List α} :
    (as.mapM f).isSome = true ↔ ∀ a ∈ as, (f a).isSome = true := by
  induction as with
  | nil => simp
  | cons a rest ih =>
      rw [List.mapM_cons, List.forall_mem_cons, ← ih]
      cases f a with
      | none => simp
      | some b => cases rest.mapM f <;> simp

/-- If each step succeeds or fails by its item alone, then so does going through a list. -/
theorem isOk_foldlM_iff {f : β → α → Except ε β} {P : α → Prop}
    (h : ∀ b a, (f b a).isOk = true ↔ P a) {as : List α} {b : β} :
    (as.foldlM f b).isOk = true ↔ ∀ a ∈ as, P a := by
  induction as generalizing b with
  | nil => simp [pure, Except.pure]
  | cons a rest ih =>
      rw [List.foldlM_cons, List.forall_mem_cons, ← h b]
      exact isOk_bind_iff_of_forall fun b' => ih

end IsOk

/-- A reader reads the values of a set and no others. -/
def Accepts {α : Type} (read : Json → Reads α) (P : Json → Prop) : Prop :=
  ∀ v, (read v).isOk = true ↔ P v

namespace Json

/-! ### Parts of a document -/

variable {α : Type} {read : Json → Reads α} {P : Json → Prop} {v : Json}

theorem accepts_asText : Accepts asText IsText := by
  intro v
  cases v with
  | text s => exact iff_of_true rfl (.text s)
  | _ => exact iff_of_false (by simp [asText]) (by rintro ⟨⟩)

theorem accepts_asNatural : Accepts asNatural IsNatural := by
  intro v
  cases v with
  | int n =>
      rw [asNatural, isOk_ite, Number.fitsUnsigned, Bool.and_eq_true, decide_eq_true_iff,
        decide_eq_true_iff]
      constructor
      · rintro ⟨hnonneg, hlt⟩
        exact .int hnonneg hlt
      · rintro ⟨hnonneg, hlt⟩
        exact ⟨hnonneg, hlt⟩
  | _ => exact iff_of_false (by simp [asNatural]) (by rintro ⟨⟩)

theorem accepts_asInteger : Accepts asInteger IsInteger := by
  intro v
  cases v with
  | int n =>
      rw [asInteger, isOk_ite, Number.fitsSigned, Bool.and_eq_true, decide_eq_true_iff,
        decide_eq_true_iff]
      constructor
      · rintro ⟨hle, hlt⟩
        exact .int hle hlt
      · rintro ⟨hle, hlt⟩
        exact ⟨hle, hlt⟩
  | _ => exact iff_of_false (by simp [asInteger]) (by rintro ⟨⟩)

theorem accepts_asId : Accepts asId IsId := by
  intro v
  cases v with
  | int n =>
      rw [asId]
      constructor
      · intro h
        by_cases hfits : 0 ≤ n ∧ n.toNat < UInt64.size
        · exact .natural (.int hfits.1 ((Int.toNat_lt hfits.1).mp hfits.2))
        · rw [dif_neg hfits] at h
          cases h
      · rintro (⟨⟨hnonneg, hlt⟩⟩ | ⟨⟨⟩⟩)
        rw [dif_pos ⟨hnonneg, (Int.toNat_lt hnonneg).mpr hlt⟩]
        rfl
  | text s => exact iff_of_true rfl (.text (.text s))
  | _ => exact iff_of_false (by simp [asId]) (by rintro (⟨⟨⟩⟩ | ⟨⟨⟩⟩))

theorem nullOr_iff_of_ne (h : v ≠ .null) : NullOr P v ↔ P v := by
  constructor
  · intro hnull
    cases hnull with
    | null => exact absurd rfl h
    | of hv => exact hv
  · exact .of

theorem asOption_of_ne (h : v ≠ .null) : asOption read v = (read v).map some := by
  cases v with
  | null => exact absurd rfl h
  | _ => rfl

theorem accepts_asOption (h : Accepts read P) : Accepts (asOption read) (NullOr P) := by
  intro v
  by_cases hnull : v = .null
  · subst hnull
    exact iff_of_true rfl .null
  · rw [asOption_of_ne hnull, isOk_map, h, nullOr_iff_of_ne hnull]

theorem listOf_list_iff {items : List Json} : ListOf P (.list items) ↔ ∀ w ∈ items, P w :=
  ⟨fun ⟨h⟩ => h, .list⟩

theorem accepts_asList (h : Accepts read P) : Accepts (asList read) (ListOf P) := by
  intro v
  cases v with
  | list items =>
      rw [asList, isOk_mapM_iff, listOf_list_iff]
      simp only [h _]
  | _ => exact iff_of_false (by simp [asList]) (by rintro ⟨⟩)

/-! ### Citations -/

theorem isSome_opacity?_iff : v.opacity?.isSome = true ↔ NullOr IsNumber v := by
  cases v with
  | null => exact iff_of_true rfl .null
  | int n => exact iff_of_true rfl (.of (.int n))
  | double x => exact iff_of_true rfl (.of (.double x))
  | single x => exact iff_of_true rfl (.of (.single x))
  | _ => exact iff_of_false (by simp [opacity?]) (by rintro (_ | ⟨⟨⟩⟩))

theorem isMetadata_object_iff {members : List (String × Json)} : IsMetadata (.object members) ↔
    (members.filter fun m => opacityNames.contains m.1).length ≤ 1 ∧
      ∀ m ∈ members.filter fun m => opacityNames.contains m.1, NullOr IsNumber m.2 := by
  have hnames : (fun m : String × Json => opacityNames.contains m.1) = fun m =>
      decide (m.1 = "opacity" ∨ m.1 = "opacitiy") := by
    funext m
    simp [opacityNames]
  rw [hnames]
  simp only [List.mem_filter, decide_eq_true_eq, and_imp]
  constructor
  · intro h
    cases h with
    | object hone h => exact ⟨hone, h⟩
  · rintro ⟨hone, h⟩
    exact .object hone h

theorem isMetadata_list_iff {items : List Json} : IsMetadata (.list items) ↔
    items.length ≤ 1 ∧ ∀ w ∈ items, NullOr IsNumber w := by
  constructor
  · intro h
    cases h with
    | list hone h => exact ⟨hone, h⟩
  · rintro ⟨hone, h⟩
    exact .list hone h

theorem isSome_citationOpacity?_iff : v.citationOpacity?.isSome = true ↔ IsMetadata v := by
  cases v with
  | object members =>
      rw [citationOpacity?, isMetadata_object_iff]
      generalize (members.filter fun m => opacityNames.contains m.1) = opacities
      match opacities with
      | [] => simp
      | [m] => simp [isSome_opacity?_iff]
      | _ :: _ :: _ => simp
  | list items =>
      rw [isMetadata_list_iff]
      match items with
      | [] => simp [citationOpacity?]
      | [w] => simp [citationOpacity?, isSome_opacity?_iff]
      | _ :: _ :: _ => simp [citationOpacity?]
  | _ => exact iff_of_false (by simp [citationOpacity?]) (by rintro ⟨⟩)

theorem accepts_asCitations : Accepts asCitations IsCitations := by
  intro v
  have hsome : (asCitations v).isOk = v.citations?.isSome := by
    rw [asCitations]
    cases v.citations? <;> rfl
  rw [hsome]
  cases v with
  | object members =>
      rw [citations?, Option.isSome_map, isSome_mapM_iff]
      simp only [namedCitation?, Option.isSome_map, isSome_citationOpacity?_iff]
      constructor
      · exact .object
      · intro h
        cases h with
        | object h => exact h
  | list items =>
      have hid : ∀ w, (listedId? w).isSome = (asId w).isOk := by
        intro w
        rw [listedId?]
        cases w.asId <;> rfl
      rw [citations?, Option.isSome_map, isSome_mapM_iff]
      simp only [hid, accepts_asId _]
      constructor
      · exact .list
      · intro h
        cases h with
        | list h => exact h
  | _ => exact iff_of_false (by simp [citations?]) (by rintro ⟨⟩)

end Json

open Json

/-! ### Records -/

/-- A shape has the fields of a grammar, and takes up of each what the grammar allows. -/
structure RecordShape.Follows {δ : Type} (s : RecordShape δ) (γ : RecordGrammar) : Prop where
  fields : s.fields = γ.fields.map Prod.fst
  nodup : s.fields.Nodup
  required : s.required = γ.required
  take : ∀ d name w, (s.take d name w).isOk = true ↔ ∀ f ∈ γ.fields, name = f.1 → f.2 w

namespace RecordShape.Follows

variable {δ : Type} {s : RecordShape δ} {γ : RecordGrammar} (h : s.Follows γ)
include h

theorem isOk_takeAll_iff {members : List (String × Json)} : (s.takeAll members).isOk = true ↔
    ∀ m ∈ members, ∀ f ∈ γ.fields, m.1 = f.1 → f.2 m.2 :=
  isOk_foldlM_iff fun d m => h.take d m.1 m.2

/-- In a list every item belongs to the field at its place. -/
theorem isOk_takeAll_zip_iff {items : List Json} :
    (s.takeAll (s.fields.zip items)).isOk = true ↔ ∀ p ∈ γ.fields.zip items, p.1.2 p.2 := by
  rw [h.isOk_takeAll_iff, h.fields, List.zip_map_left, List.forall_mem_map]
  refine forall₂_congr fun p hp => ?_
  have hfield : p.1 ∈ γ.fields := (List.of_mem_zip hp).1
  constructor
  · intro hall
    exact hall p.1 hfield rfl
  · intro hfits f hf hname
    have hnodup := h.fields ▸ h.nodup
    obtain rfl := List.inj_on_of_nodup_map hnodup hfield hf hname
    exact hfits

theorem absent?_eq_none_iff {names : List String} : s.absent? names = none ↔
    ∀ f ∈ γ.fields.take γ.required, f.1 ∈ names := by
  rw [absent?, h.fields, h.required, List.find?_eq_none, ← List.map_take, List.forall_mem_map]
  simp

/-- A shape that follows a grammar accepts its records. -/
theorem accepts_read : Accepts s.read γ.Fits := by
  intro v
  cases v with
  | object members =>
      refine (isOk_bind_iff_of_forall (p := s.absent? (members.map Prod.fst) = none)
        fun draft => ?_).trans ?_
      · cases s.absent? (members.map Prod.fst) <;> simp
      · rw [h.isOk_takeAll_iff, h.absent?_eq_none_iff]
        constructor
        · rintro ⟨htake, hrequired⟩
          exact .object hrequired htake
        · intro hfits
          cases hfits with
          | object hrequired htake => exact ⟨htake, hrequired⟩
  | list items =>
      refine (isOk_bind_iff_of_forall (p := s.required ≤ items.length ∧
        items.length ≤ s.fields.length) fun draft => ?_).trans ?_
      · by_cases hshort : items.length < s.required
        · simp [hshort, Nat.not_le_of_lt hshort]
        · by_cases hlong : s.fields.length < items.length
          · simp [hshort, hlong, Nat.not_le_of_lt hlong]
          · simp [hshort, hlong, Nat.le_of_not_lt hshort, Nat.le_of_not_lt hlong]
      · rw [h.isOk_takeAll_zip_iff, h.required, h.fields, List.length_map]
        constructor
        · rintro ⟨htake, hrequired, hlength⟩
          exact .list hrequired hlength htake
        · intro hfits
          cases hfits with
          | list hrequired hlength htake => exact ⟨htake, hrequired, hlength⟩
  | _ => exact iff_of_false (by simp [read]) (by rintro ⟨⟩)

end RecordShape.Follows

theorem accepts_subOpinion : Accepts subOpinionShape.read subOpinionGrammar.Fits := by
  refine RecordShape.Follows.accepts_read ⟨rfl, by decide, rfl, fun d name w => ?_⟩
  rw [subOpinionShape]
  dsimp only
  split <;> simp [subOpinionGrammar, accepts_asOption accepts_asCitations w, *]

theorem accepts_cluster : Accepts clusterShape.read clusterGrammar.Fits := by
  refine RecordShape.Follows.accepts_read ⟨rfl, by decide, rfl, fun d name w => ?_⟩
  rw [clusterShape]
  dsimp only
  split
  case h_12 => simp_all [clusterGrammar]
  all_goals
    simp [clusterGrammar, accepts_asId w, accepts_asText w, accepts_asOption accepts_asText w,
      accepts_asOption accepts_asNatural w, accepts_asOption accepts_asInteger w,
      accepts_asList accepts_subOpinion w]

/-- Only the first sub-opinion is used, but a later one that does not fit is a fault. -/
example : (clusterShape.read (.list [.int 1, .text "1901-01-01", .null, .null, .null, .null, .null,
    .null, .null, .null, .list [.list [], .list [.int 7]]])).isOk = false := by cbv

theorem accepts_hit : Accepts hitShape.read hitGrammar.Fits := by
  refine RecordShape.Follows.accepts_read ⟨rfl, by decide, rfl, fun d name w => ?_⟩
  rw [hitShape]
  dsimp only
  split
  case h_8 => simp_all [hitGrammar]
  all_goals
    simp [hitGrammar, accepts_asId w, accepts_asText w, accepts_asOption accepts_asText w,
      accepts_asList accepts_asId w, accepts_asList accepts_asText w]

/-! ### Documents -/

namespace Json

/-- In canonical form an object has one member of a name at most. -/
theorem member?_canonical_eq_some_iff {u w : Json} {name : String} :
    u.canonical.member? name = some w ↔ u.canonical.HasMember name w := by
  cases u with
  | object members =>
      rw [canonical, member?, Entries.get?_eq_some_iff (Entries.increasing_ofList _)]
      constructor
      · intro h
        exact ⟨_, rfl, h⟩
      · rintro ⟨_, ⟨⟩, h⟩
        exact h
  | _ => exact iff_of_false (by simp [canonical, member?]) (by rintro ⟨_, ⟨⟩, _⟩)

theorem member?_canonical_eq_none_iff {u : Json} {name : String} :
    u.canonical.member? name = none ↔ ∀ w, ¬ u.canonical.HasMember name w := by
  simp only [← member?_canonical_eq_some_iff]
  exact Option.eq_none_iff_forall_ne_some

/-- What has been read is in canonical form. -/
theorem exists_canonical_of_read {text : String} {v : Json} (h : read text = .ok v) :
    ∃ u, v = canonical u := by
  rw [read] at h
  cases htokens : ofTokens .strict (tokens text.toList) with
  | error fault =>
      rw [htokens] at h
      cases h
  | ok u =>
      rw [htokens] at h
      exact ⟨u, (Except.ok.inj h).symm⟩

end Json

/-- The answer to a value is that which the grammar gives. -/
structure AnswersByGrammar (v : Json) (answer : Except Fault (List OpinionRecord)) : Prop where
  /-- A value that is no object, or has neither of the two lists, is no document. -/
  malformedInput_iff : answer = .error .malformedInput ↔
    ∀ w, ¬ v.HasMember "opinion_clusters" w ∧ ¬ v.HasMember "results" w
  /-- Clusters are read whatever else there is. -/
  clusters : ∀ w, v.HasMember "opinion_clusters" w →
    (answer.isOk = true ↔ ListOf clusterGrammar.Fits w)
  /-- Hits are read if there are no clusters, and so is their number. -/
  hits : (∀ w, ¬ v.HasMember "opinion_clusters" w) → ∀ w, v.HasMember "results" w →
    (answer.isOk = true ↔ ListOf hitGrammar.Fits w ∧
      ∀ n, v.HasMember "count" n → NullOr IsNatural n)
  /-- Every other answer is that a value does not fit. -/
  notDocument : answer.isOk = true ∨ answer = .error .malformedInput ∨
    ∃ mismatch, answer = .error (.notDocument mismatch)

theorem isOk_readClusters_iff {w : Json} :
    (readClusters w).isOk = true ↔ ListOf clusterGrammar.Fits w :=
  accepts_asList accepts_cluster w

theorem isOk_readHits_iff {w : Json} : (readHits w).isOk = true ↔ ListOf hitGrammar.Fits w := by
  rw [readHits, isOk_map]
  exact accepts_asList accepts_hit w

/-- A number of hits is accepted if it is absent. -/
theorem isOk_count_iff {u : Json} :
    (((u.canonical.member? "count").getD .null).asOption asNatural).isOk = true ↔
      ∀ n, u.canonical.HasMember "count" n → NullOr IsNatural n := by
  simp only [← member?_canonical_eq_some_iff]
  cases u.canonical.member? "count" with
  | none => simp [accepts_asOption accepts_asNatural _, NullOr.null]
  | some n => simp [accepts_asOption accepts_asNatural _]

theorem mapError_notDocument {α : Type} (x : Reads α) :
    (x.mapError Fault.notDocument).isOk = true ∨
      ∃ mismatch, x.mapError Fault.notDocument = .error (.notDocument mismatch) := by
  cases x with
  | ok a => exact Or.inl rfl
  | error mismatch => exact Or.inr ⟨mismatch, rfl⟩

theorem mapError_notDocument_ne {α : Type} (x : Reads α) :
    x.mapError Fault.notDocument ≠ .error .malformedInput := by
  cases x with
  | ok a => exact nofun
  | error mismatch => exact nofun

section ReadDocument

variable {u w : Json}

theorem answersByGrammar_of_clusters (hw : u.canonical.member? "opinion_clusters" = some w) :
    AnswersByGrammar u.canonical (readDocument u.canonical) := by
  have hmem := member?_canonical_eq_some_iff.mp hw
  have hread : readDocument u.canonical = (readClusters w).mapError .notDocument := by
    rw [readDocument, hw]
  rw [hread]
  refine ⟨?_, fun w' hw' => ?_, fun hnone => absurd hmem (hnone w), ?_⟩
  · exact iff_of_false (mapError_notDocument_ne _) fun hnone => (hnone w).1 hmem
  · obtain rfl := Option.some.inj (hw.symm.trans (member?_canonical_eq_some_iff.mpr hw'))
    rw [isOk_mapError, isOk_readClusters_iff]
  · exact (mapError_notDocument _).imp_right Or.inr

theorem answersByGrammar_of_hits (hclusters : u.canonical.member? "opinion_clusters" = none)
    (hw : u.canonical.member? "results" = some w) :
    AnswersByGrammar u.canonical (readDocument u.canonical) := by
  have hnone := member?_canonical_eq_none_iff.mp hclusters
  have hmem := member?_canonical_eq_some_iff.mp hw
  have hread : readDocument u.canonical = Except.mapError .notDocument
      (((u.canonical.member? "count").getD .null).asOption asNatural >>= fun _ => readHits w) := by
    rw [readDocument, hclusters, hw]
  rw [hread]
  refine ⟨?_, fun w' hw' => absurd hw' (hnone w'), fun _ w' hw' => ?_, ?_⟩
  · exact iff_of_false (mapError_notDocument_ne _) fun hneither => (hneither w).2 hmem
  · obtain rfl := Option.some.inj (hw.symm.trans (member?_canonical_eq_some_iff.mpr hw'))
    rw [isOk_mapError, isOk_bind_iff_of_forall fun _ => isOk_readHits_iff, isOk_count_iff, and_comm]
  · exact (mapError_notDocument _).imp_right Or.inr

theorem answersByGrammar_of_neither (hclusters : u.canonical.member? "opinion_clusters" = none)
    (hhits : u.canonical.member? "results" = none) :
    AnswersByGrammar u.canonical (readDocument u.canonical) := by
  have hnone := member?_canonical_eq_none_iff.mp hclusters
  have hneither := member?_canonical_eq_none_iff.mp hhits
  have hread : readDocument u.canonical = .error .malformedInput := by
    rw [readDocument, hclusters, hhits]
  rw [hread]
  exact ⟨iff_of_true rfl fun w => ⟨hnone w, hneither w⟩, fun w hw => absurd hw (hnone w),
    fun _ w hw => absurd hw (hneither w), Or.inr (Or.inl rfl)⟩

end ReadDocument

/-- **A document is accepted if it belongs to the grammar**, and refused as the grammar says, for
every text that is JSON. -/
theorem parseDocument_answersByGrammar {text : String} {v : Json} (h : Json.read text = .ok v) :
    AnswersByGrammar v (parseDocument text) := by
  rw [parseDocument, h]
  obtain ⟨u, rfl⟩ := exists_canonical_of_read h
  cases hclusters : u.canonical.member? "opinion_clusters" with
  | some clusters => exact answersByGrammar_of_clusters hclusters
  | none =>
      cases hhits : u.canonical.member? "results" with
      | some hits => exact answersByGrammar_of_hits hclusters hhits
      | none => exact answersByGrammar_of_neither hclusters hhits

/-- One cluster, written as a list of its first two fields. -/
def smallDocument : String :=
  "\x7b\"opinion_clusters\": [[7, \"1901-01-01\"]], \"results\": 0\x7d"

/-- Where there are clusters, it does not matter what the results are. -/
theorem parseDocument_smallDocument : ∃ v, Json.read smallDocument = .ok v ∧
    (parseDocument smallDocument).isOk = true ∧
    AnswersByGrammar v (parseDocument smallDocument) := by
  have hread : Json.read smallDocument = .ok (.object
      [("opinion_clusters", .list [.list [.int 7, .text "1901-01-01"]]), ("results", .int 0)]) := by
    cbv
  have hanswers := parseDocument_answersByGrammar hread
  have hcluster : clusterGrammar.Fits (.list [.int 7, .text "1901-01-01"]) := by
    refine .list (by decide) (by decide) fun p hp => ?_
    simp only [clusterGrammar, List.zip_cons_cons, List.zip_nil_right, List.mem_cons,
      List.not_mem_nil, or_false] at hp
    rcases hp with rfl | rfl
    · exact .natural (.int (by decide) (by decide))
    · exact .text _
  have hclusters := hanswers.clusters (.list [.list [.int 7, .text "1901-01-01"]])
    ⟨_, rfl, List.mem_cons_self ..⟩
  refine ⟨_, hread, hclusters.mpr (.list fun w hw => ?_), hanswers⟩
  obtain rfl := List.mem_singleton.mp hw
  exact hcluster

end Precedent
