import Mathlib.Data.List.Find
import Precedent.Document.Reader
import Precedent.Proofs.Json.Members

/-!
# Precedent.Proofs.Document.Places

**What the reader of a document passes over.** A place says what a value is read as. Where that is a
record, or the document itself, the members that are no fields of it are not looked at, at any depth:
without them the document gives the same records or the same fault (`readDocument_pruned`). Anywhere
else everything that is there counts, if only for the wording of a fault.
-/

namespace Precedent

/-- A place of a document. -/
inductive Place where
  | document
  | clusters
  | cluster
  | subOpinions
  | subOpinion
  | citations
  /-- How one citation is drawn. -/
  | metadata
  | hits
  | hit
  /-- Any other place, where nothing is passed over. -/
  | other

namespace Place

/-- The names that are used for the members of an object, where not every name is. -/
def names? : Place → Option (List String)
  | document => some ["count", "opinion_clusters", "results"]
  | cluster => some clusterShape.fields
  | subOpinion => some subOpinionShape.fields
  | metadata => some Json.opacityNames
  | hit => some hitShape.fields
  | clusters | subOpinions | citations | hits | other => none

/-- Whether the members of a name are passed over. -/
def ignores (p : Place) (name : String) : Bool := p.names?.any fun names => !names.contains name

/-- The place of a member with the given name. -/
def member : Place → String → Place
  | document, "opinion_clusters" => clusters
  | document, "results" => hits
  | cluster, "sub_opinions" => subOpinions
  | subOpinion, "opinions_cited" => citations
  | citations, _ => metadata
  | _, _ => other

/-- The place of the item at the given index; a record can be a list of its fields. -/
def item : Place → Nat → Place
  | clusters, _ => cluster
  | subOpinions, _ => subOpinion
  | hits, _ => hit
  | cluster, i => cluster.member (clusterShape.fields.getD i "")
  | subOpinion, i => subOpinion.member (subOpinionShape.fields.getD i "")
  | _, _ => other

end Place

namespace Json

mutual
/-- A value at a place without the members that are passed over, at any depth. -/
def pruned (p : Place) : Json → Json
  | .list items => .list (prunedItems p 0 items)
  | .object members => .object (prunedMembers p members)
  | .null => .null
  | .bool b => .bool b
  | .int n => .int n
  | .double x => .double x
  | .single x => .single x
  | .text s => .text s
/-- Items from the given index on. -/
def prunedItems (p : Place) (i : Nat) : List Json → List Json
  | [] => []
  | v :: rest => pruned (p.item i) v :: prunedItems p (i + 1) rest
def prunedMembers (p : Place) : List (String × Json) → List (String × Json)
  | [] => []
  | (name, v) :: rest =>
    if p.ignores name then prunedMembers p rest
    else (name, pruned (p.member name) v) :: prunedMembers p rest
end

theorem prunedItems_map {α : Type} (f : α → Json) (p : Place) (i : Nat) (as : List α) :
    prunedItems p i (as.map f) = as.mapIdx fun j a => (f a).pruned (p.item (i + j)) := by
  induction as generalizing i with
  | nil => rfl
  | cons a rest ih =>
      rw [List.map_cons, prunedItems, ih, List.mapIdx_cons]
      simp only [Nat.add_zero, Nat.add_assoc, Nat.add_comm 1]

theorem length_prunedItems (p : Place) (i : Nat) (items : List Json) :
    (prunedItems p i items).length = items.length := by
  induction items generalizing i with
  | nil => rfl
  | cons v rest ih => rw [prunedItems, List.length_cons, ih, List.length_cons]

theorem prunedMembers_eq_map (p : Place) (members : List (String × Json)) :
    prunedMembers p members = (members.filter fun m => !p.ignores m.1).map
      fun m => (m.1, pruned (p.member m.1) m.2) := by
  induction members with
  | nil => rfl
  | cons m rest ih =>
      rw [prunedMembers, ih, List.filter_cons]
      cases p.ignores m.1 <;> rfl

theorem map_fst_prunedMembers (p : Place) (members : List (String × Json)) :
    (prunedMembers p members).map Prod.fst =
      (members.map Prod.fst).filter fun name => !p.ignores name := by
  rw [prunedMembers_eq_map, List.map_map, List.filter_map]
  rfl

/-! ### Places without records -/

mutual
/-- At any other place nothing is passed over. -/
theorem pruned_other (v : Json) : v.pruned .other = v := by
  match v with
  | .list items => exact congrArg list (prunedItems_other 0 items)
  | .object members => exact congrArg object (prunedMembers_other members)
  | .null | .bool _ | .int _ | .double _ | .single _ | .text _ => rfl
theorem prunedItems_other (i : Nat) (items : List Json) : prunedItems .other i items = items := by
  match items with
  | [] => rfl
  | v :: rest => exact congrArg₂ List.cons (pruned_other v) (prunedItems_other (i + 1) rest)
theorem prunedMembers_other (members : List (String × Json)) :
    prunedMembers .other members = members := by
  match members with
  | [] => rfl
  | (name, v) :: rest =>
      exact congrArg₂ List.cons (Prod.ext rfl (pruned_other v)) (prunedMembers_other rest)
end

theorem prunedItems_of_other {p : Place} (hitem : ∀ i, p.item i = .other) (i : Nat)
    (items : List Json) : prunedItems p i items = items := by
  induction items generalizing i with
  | nil => rfl
  | cons v rest ih => rw [prunedItems, hitem, pruned_other, ih]

/-- Where no member is a record, an object counts as it is. -/
theorem pruned_object {p : Place} (hnames : p.names? = none)
    (hmember : ∀ name, p.member name = .other) (members : List (String × Json)) :
    pruned p (.object members) = .object members := by
  have hignores : (fun m : String × Json => !p.ignores m.1) = fun _ => true := by
    funext m
    rw [Place.ignores, hnames]
    rfl
  rw [pruned, prunedMembers_eq_map, hignores, List.filter_true]
  simp only [hmember, pruned_other, List.map_id']

section Readers

variable {α : Type} {f : Json → Reads α} {p : Place}

theorem mapM_prunedItems (hf : ∀ i v, f (v.pruned (p.item i)) = f v) (i : Nat)
    (items : List Json) : (prunedItems p i items).mapM f = items.mapM f := by
  induction items generalizing i with
  | nil => rfl
  | cons v rest ih => rw [prunedItems, List.mapM_cons, List.mapM_cons, hf, ih]

theorem asList_pruned (hnames : p.names? = none) (hmember : ∀ name, p.member name = .other)
    (hf : ∀ i v, f (v.pruned (p.item i)) = f v) (v : Json) :
    (v.pruned p).asList f = v.asList f := by
  cases v with
  | list items => exact mapM_prunedItems hf 0 items
  | object members => rw [pruned_object hnames hmember]
  | _ => rfl

theorem asOption_pruned (hf : ∀ v, f (v.pruned p) = f v) (v : Json) :
    (v.pruned p).asOption f = v.asOption f := by
  cases v with
  | null => rfl
  | _ => exact congrArg (Except.map some) (hf _)

end Readers

/-! ### Citations -/

theorem citationOpacity?_pruned (v : Json) :
    (v.pruned .metadata).citationOpacity? = v.citationOpacity? := by
  cases v with
  | object members =>
      have hother : ∀ name, Place.metadata.member name = .other := fun _ => rfl
      have hfilter : (prunedMembers .metadata members).filter
          (fun m => opacityNames.contains m.1) =
          members.filter fun m => opacityNames.contains m.1 := by
        rw [prunedMembers_eq_map]
        simp only [hother, pruned_other, List.map_id', Place.ignores, Place.names?,
          Option.any_some, Bool.not_not, List.filter_filter, Bool.and_self]
      rw [pruned, citationOpacity?, hfilter]
      rfl
  | list items => rw [pruned, prunedItems_of_other fun _ => rfl]
  | _ => rfl

theorem namedCitation?_pruned (m : String × Json) :
    namedCitation? (m.1, m.2.pruned .metadata) = namedCitation? m := by
  rw [namedCitation?, citationOpacity?_pruned, namedCitation?]

theorem asCitations_pruned (v : Json) : (v.pruned .citations).asCitations = v.asCitations := by
  suffices hcitations : (v.pruned .citations).citations? = v.citations? by
    rw [asCitations, hcitations, asCitations]
  cases v with
  | object members =>
      have hmembers : prunedMembers .citations members =
          members.map fun m => (m.1, m.2.pruned .metadata) := by
        rw [prunedMembers_eq_map]
        exact congrArg _ (List.filter_true members)
      rw [pruned, citations?, citations?, hmembers, List.mapM_map]
      simp only [Function.comp_def, namedCitation?_pruned]
  | list items => rw [pruned, prunedItems_of_other fun _ => rfl]
  | _ => rfl

end Json

/-! ### Records -/

open Json

/-- The records of a shape stand at a place. -/
structure RecordShape.StandsAt {δ : Type} (s : RecordShape δ) (p : Place) : Prop where
  names : p.names? = some s.fields
  /-- A field has its place under its name and in its turn. -/
  item : ∀ i name, s.fields[i]? = some name → p.item i = p.member name
  take : ∀ d, ∀ name ∈ s.fields, ∀ v, s.take d name (v.pruned (p.member name)) = s.take d name v
  unknown : ∀ d, ∀ name ∉ s.fields, ∀ v, s.take d name v = .ok d

namespace RecordShape.StandsAt

variable {δ : Type} {s : RecordShape δ} {p : Place} (h : s.StandsAt p)
include h

theorem ignores_iff {name : String} : p.ignores name = true ↔ name ∉ s.fields := by
  rw [Place.ignores, h.names]
  simp

/-- Members that are passed over change nothing. -/
theorem foldlM_prunedMembers (d : δ) (members : List (String × Json)) :
    (prunedMembers p members).foldlM (fun d m => s.take d m.1 m.2) d =
      members.foldlM (fun d m => s.take d m.1 m.2) d := by
  induction members generalizing d with
  | nil => rfl
  | cons m rest ih =>
      rw [prunedMembers, List.foldlM_cons]
      by_cases hname : m.1 ∈ s.fields
      · rw [if_neg (fun hp => h.ignores_iff.mp hp hname), List.foldlM_cons, h.take d m.1 hname]
        exact bind_congr fun d' => ih d'
      · rw [if_pos (h.ignores_iff.mpr hname), h.unknown d m.1 hname, ih]
        rfl

theorem absent?_prunedMembers (members : List (String × Json)) :
    s.absent? ((prunedMembers p members).map Prod.fst) = s.absent? (members.map Prod.fst) := by
  refine List.find?_congr fun name hname => congrArg Bool.not ?_
  -- A field is not among the names that are passed over.
  have hkept : p.ignores name = false :=
    Bool.eq_false_iff.mpr fun hp => h.ignores_iff.mp hp (List.mem_of_mem_take hname)
  rw [Bool.eq_iff_iff, List.contains_iff_mem, List.contains_iff_mem, map_fst_prunedMembers,
    List.mem_filter, hkept, and_iff_left Bool.not_false]

/-- In a list every item belongs to the field at its place. -/
theorem foldlM_zip_prunedItems {fields : List String} {i : Nat}
    (hfields : ∀ j name, fields[j]? = some name →
      name ∈ s.fields ∧ p.item (i + j) = p.member name) (d : δ) (items : List Json) :
    (fields.zip (prunedItems p i items)).foldlM (fun d m => s.take d m.1 m.2) d =
      (fields.zip items).foldlM (fun d m => s.take d m.1 m.2) d := by
  induction fields generalizing i d items with
  | nil => rfl
  | cons name fields ih =>
      cases items with
      | nil => rfl
      | cons v rest =>
          obtain ⟨hname, hitem⟩ := hfields 0 name rfl
          rw [prunedItems, List.zip_cons_cons, List.zip_cons_cons, List.foldlM_cons,
            List.foldlM_cons, ← Nat.add_zero i, hitem, h.take d name hname]
          refine bind_congr fun d' => ih (fun j name' hj => ?_) d' rest
          rw [Nat.add_zero, Nat.add_assoc, Nat.add_comm 1]
          exact hfields (j + 1) name' hj

/-- A record is the same without the members that are passed over. -/
theorem read_pruned (v : Json) : s.read (v.pruned p) = s.read v := by
  cases v with
  | object members =>
      rw [pruned, read, takeAll, h.foldlM_prunedMembers, h.absent?_prunedMembers]
      rfl
  | list items =>
      have hfields : ∀ i name, s.fields[i]? = some name →
          name ∈ s.fields ∧ p.item (0 + i) = p.member name := by
        intro i name hname
        rw [Nat.zero_add]
        exact ⟨List.mem_of_getElem? hname, h.item i name hname⟩
      rw [pruned, read, takeAll, h.foldlM_zip_prunedItems hfields, length_prunedItems]
      rfl
  | _ => rfl

end RecordShape.StandsAt

theorem getD_of_getElem? {names : List String} {i : Nat} {name : String}
    (h : names[i]? = some name) : names.getD i "" = name := by
  rw [List.getD_eq_getElem?_getD, h, Option.getD_some]

theorem subOpinion_standsAt : subOpinionShape.StandsAt .subOpinion where
  names := rfl
  item _ _ hname := congrArg (Place.member .subOpinion) (getD_of_getElem? hname)
  take := by
    intro d name hname v
    obtain rfl := List.mem_singleton.mp hname
    exact congrArg (Except.map _) (asOption_pruned asCitations_pruned v)
  unknown := by
    intro d name hname v
    exact if_neg fun heq => hname (List.mem_singleton.mpr heq)

theorem cluster_standsAt : clusterShape.StandsAt .cluster where
  names := rfl
  item _ _ hname := congrArg (Place.member .cluster) (getD_of_getElem? hname)
  take := by
    intro d name _ v
    by_cases hsubs : name = "sub_opinions"
    · obtain rfl := hsubs
      exact congrArg (Except.map _) (asList_pruned rfl (fun _ => rfl)
        (fun _ => subOpinion_standsAt.read_pruned) v)
    · have hother : Place.cluster.member name = .other := by
        rw [Place.member]
        all_goals
          intros
          simp_all
      rw [hother, pruned_other]
  unknown := by
    intro d name hname v
    rw [clusterShape]
    dsimp only
    split
    case h_12 => rfl
    all_goals exact absurd (by simp [clusterShape]) hname

theorem hit_standsAt : hitShape.StandsAt .hit where
  names := rfl
  item _ _ _ := rfl
  take d name _ v := congrArg (hitShape.take d name) (pruned_other v)
  unknown := by
    intro d name hname v
    rw [hitShape]
    dsimp only
    split
    case h_8 => rfl
    all_goals exact absurd (by simp [hitShape]) hname

/-! ### Documents -/

theorem readClusters_pruned (v : Json) : readClusters (v.pruned .clusters) = readClusters v :=
  asList_pruned rfl (fun _ => rfl) (fun _ => cluster_standsAt.read_pruned) v

theorem readHits_pruned (v : Json) : readHits (v.pruned .hits) = readHits v :=
  congrArg (Except.map _)
    (asList_pruned rfl (fun _ => rfl) (fun _ => hit_standsAt.read_pruned) v)

/-- A member whose name is used is found without the others. -/
theorem member?_pruned {p : Place} {name : String} (hname : p.ignores name = false) (v : Json) :
    (v.pruned p).member? name = (v.member? name).map (pruned (p.member name)) := by
  cases v with
  | object members =>
      rw [pruned, prunedMembers_eq_map, member?,
        Entries.get?_map fun name => pruned (p.member name),
        Entries.get?_filter fun name => !p.ignores name, hname]
      rfl
  | _ => rfl

/-- **A document is the same without the members that are passed over.** -/
theorem readDocument_pruned (v : Json) : readDocument (v.pruned .document) = readDocument v := by
  have hclusters : (v.pruned .document).member? "opinion_clusters" =
      (v.member? "opinion_clusters").map (pruned .clusters) := member?_pruned rfl v
  have hhits : (v.pruned .document).member? "results" = (v.member? "results").map (pruned .hits) :=
    member?_pruned rfl v
  have hcount : (v.pruned .document).member? "count" = (v.member? "count").map (pruned .other) :=
    member?_pruned rfl v
  rw [funext pruned_other, Option.map_id'] at hcount
  rw [readDocument, hclusters, hhits, hcount, readDocument]
  cases v.member? "opinion_clusters" with
  | some clusters =>
      exact congrArg (Except.mapError Fault.notDocument) (readClusters_pruned clusters)
  | none =>
      cases v.member? "results" with
      | none => rfl
      | some hits =>
          dsimp only [Option.map_none, Option.map_some]
          rw [readHits_pruned]

end Precedent
