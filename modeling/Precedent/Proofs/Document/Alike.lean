import Precedent.Proofs.Document.Places
import Precedent.Proofs.Json.Soundness

/-!
# Precedent.Proofs.Document.Alike

**Documents that differ only in what does not matter are read alike.** White space between tokens,
the order of the members of an object in which no name is repeated, and members that are passed over
have no effect on the records, and none on the fault either: which of several faults is reported does
not depend on the order in the text, since the members are put in order before any of them is looked
at.
-/

namespace Precedent

open Json

/-- One change to a script at a place with room for so many containers inside each other. -/
inductive Edit : Place → Nat → Script → Script → Prop where
  /-- The members of an object in which no name is repeated change their order. -/
  | reorder {p : Place} {room : Nat} {members members' : List (List Piece × Script)}
      (hperm : members.Perm members')
      (hnames : (members.filterMap fun m => meaning? m.1).Nodup) :
      Edit p room (.object members) (.object members')
  /-- An object gets one more member, which is passed over. -/
  | extra {p : Place} {room : Nat} {front back : List (List Piece × Script)} {name : List Piece}
      {value : Script} (hname : (meaning? name).isSome = true)
      (hignored : p.ignores (meaning name) = true) (hvalue : value.isSound (room - 1) = true) :
      Edit p room (.object (front ++ back)) (.object (front ++ (name, value) :: back))
  /-- A change to one item. -/
  | item {p : Place} {room : Nat} {front back : List Script} {t t' : Script}
      (h : Edit (p.item front.length) (room - 1) t t') :
      Edit p room (.list (front ++ t :: back)) (.list (front ++ t' :: back))
  /-- A change to the value of one member. -/
  | member {p : Place} {room : Nat} {front back : List (List Piece × Script)} {name : List Piece}
      {t t' : Script} (h : Edit (p.member (meaning name)) (room - 1) t t') :
      Edit p room (.object (front ++ (name, t) :: back)) (.object (front ++ (name, t') :: back))

/-- Scripts of documents that differ by any number of changes, made or undone. -/
def Alike : Script → Script → Prop := Relation.EqvGen (Edit .document depthLimit)

namespace Json.Script

/-- What counts of a script at a place. -/
def essence (t : Script) (p : Place) : Json := t.value.canonical.pruned p

theorem essence_list (p : Place) (items : List Script) :
    (Script.list items).essence p = .list (items.mapIdx fun i t => t.essence (p.item i)) := by
  rw [essence, value, canonical, pruned, canonicalItems_eq_map, valuesOfItems_eq_map, List.map_map,
    prunedItems_map]
  simp only [Nat.zero_add]
  rfl

theorem essence_object (p : Place) (members : List (List Piece × Script)) :
    (Script.object members).essence p = .object (Entries.ofList
      ((members.filter fun m => !p.ignores (meaning m.1)).map fun m =>
        (meaning m.1, m.2.essence (p.member (meaning m.1))))) := by
  rw [essence, value, canonical, canonicalMembers_eq_map, valuesOfMembers_eq_map, List.map_map,
    pruned, prunedMembers_eq_map, Entries.filter_ofList fun name => !p.ignores name,
    Entries.map_ofList fun name => pruned (p.member name), List.filter_map, List.map_map]
  rfl

/-- Names that all mean something are different if what they mean is. -/
theorem nodup_names {room : Nat} {members : List (List Piece × Script)}
    (hsound : areSoundMembers room members = true)
    (h : (members.filterMap fun m => meaning? m.1).Nodup) :
    (members.map fun m => meaning m.1).Nodup := by
  have hmap : (members.map fun m => meaning m.1) =
      (members.filterMap fun m => meaning? m.1).map String.ofList := by
    clear h
    induction members with
    | nil => rfl
    | cons m rest ih =>
        rw [areSoundMembers, Bool.and_eq_true, Bool.and_eq_true] at hsound
        obtain ⟨cs, hcs⟩ := Option.isSome_iff_exists.mp hsound.1.1
        rw [List.map_cons, ih hsound.2, List.filterMap_cons, hcs, meaning, hcs]
        rfl
  rw [hmap]
  exact h.map fun cs cs' heq => String.ofList_inj.mp heq

end Json.Script

namespace Edit

variable {p : Place} {room : Nat} {t t' : Script} (h : Edit p room t t')
include h

theorem isSound_eq : t.isSound room = t'.isSound room := by
  induction h with
  | reorder hperm hnames =>
      rw [Script.isSound, Script.isSound, Script.areSoundMembers_eq_all,
        Script.areSoundMembers_eq_all, hperm.all_eq]
  | extra hname hignored hvalue =>
      rw [Script.isSound, Script.isSound, Script.areSoundMembers_eq_all,
        Script.areSoundMembers_eq_all, List.all_append, List.all_append, List.all_cons, hname,
        hvalue, Bool.true_and, Bool.true_and]
  | item h ih =>
      rw [Script.isSound, Script.isSound, Script.areSound_eq_all, Script.areSound_eq_all,
        List.all_append, List.all_append, List.all_cons, List.all_cons, ih]
  | member h ih =>
      rw [Script.isSound, Script.isSound, Script.areSoundMembers_eq_all,
        Script.areSoundMembers_eq_all, List.all_append, List.all_append, List.all_cons,
        List.all_cons, ih]

theorem essence_eq (hsound : t.isSound room = true) : t.essence p = t'.essence p := by
  induction h with
  | reorder hperm hnames =>
      rw [Script.isSound, Bool.and_eq_true] at hsound
      rw [Script.essence_object, Script.essence_object]
      refine congrArg Json.object (Entries.ofList_perm ((hperm.filter _).map _) ?_)
      rw [List.map_map]
      exact ((Script.nodup_names hsound.2 hnames).sublist (List.filter_sublist.map _))
  | extra hname hignored hvalue =>
      rw [Script.essence_object, Script.essence_object, List.filter_append, List.filter_append,
        List.filter_cons, hignored]
      rfl
  | @item p room front back t t' h ih =>
      rw [Script.isSound, Bool.and_eq_true, Script.areSound_eq_all, List.all_append,
        List.all_cons] at hsound
      simp only [Bool.and_eq_true] at hsound
      have ht := ih hsound.2.2.1
      rw [Script.essence_list, Script.essence_list, List.mapIdx_append, List.mapIdx_append,
        List.mapIdx_cons, List.mapIdx_cons, Nat.zero_add, ht]
  | @member p room front back name t t' h ih =>
      rw [Script.isSound, Bool.and_eq_true, Script.areSoundMembers_eq_all, List.all_append,
        List.all_cons] at hsound
      simp only [Bool.and_eq_true] at hsound
      have ht := ih hsound.2.2.1.2
      rw [Script.essence_object, Script.essence_object, List.filter_append, List.filter_append,
        List.filter_cons, List.filter_cons]
      split
      · simp only [List.map_append, List.map_cons, ht]
      · rfl

end Edit

namespace Alike

variable {t t' : Script} (h : Alike t t')
include h

theorem isSound_eq : t.isSound depthLimit = t'.isSound depthLimit := by
  induction h with
  | rel _ _ h => exact h.isSound_eq
  | refl _ => rfl
  | symm _ _ _ ih => exact ih.symm
  | trans _ _ _ _ _ ih ih' => exact ih.trans ih'

theorem essence_eq (hsound : t.isSound depthLimit = true) :
    t.essence .document = t'.essence .document := by
  induction h with
  | rel _ _ h => exact h.essence_eq hsound
  | refl _ => rfl
  | symm _ _ h ih => exact (ih ((isSound_eq h).trans hsound)).symm
  | trans _ _ _ h _ ih ih' => exact (ih hsound).trans (ih' ((isSound_eq h).symm.trans hsound))

end Alike

/-! ### A document in two layouts -/

/-- A text that is written without escapes. -/
def plainly (s : String) : List Piece :=
  s.toList.filterMap fun c =>
    if h : 0x20 ≤ c.toNat ∧ c ≠ '"' ∧ c ≠ '\\' then some (.plain c h) else none

def idMember : List Piece × Script :=
  (plainly "id", .number ⟨false, ⟨['7'], by decide, List.forall_mem_singleton.mpr rfl⟩, by decide,
    none, none⟩)

def dateMember : List Piece × Script := (plainly "date_filed", .text (plainly "1901-01-01"))

/-- A document with one cluster. -/
def shortScript : Script :=
  .object [(plainly "opinion_clusters", .list [.object [idMember, dateMember]])]

/-- The same document with two members more and two in another order. -/
def longScript : Script :=
  .object [(plainly "note", .list [.null]),
    (plainly "opinion_clusters", .list [.object [dateMember, (plainly "court", .null), idMember]])]

def shortDocument : String :=
  "\x7b\"opinion_clusters\":[\x7b\"id\":7,\"date_filed\":\"1901-01-01\"\x7d]\x7d"

def longDocument : String :=
  " \x7b \"note\" : [ null ] , \"opinion_clusters\" : [ \x7b \"date_filed\" : \"1901-01-01\" ," ++
    " \"court\" : null , \"id\" : 7 \x7d ] \x7d"

theorem alike_scripts : Alike shortScript longScript := by
  -- The two members of the cluster change their order; then one more comes between them, and one in
  -- front of the clusters.
  have hreorder : Edit .document depthLimit shortScript
      (.object [(plainly "opinion_clusters", .list [.object [dateMember, idMember]])]) :=
    @Edit.member _ _ [] [] _ _ _
      (@Edit.item _ _ [] [] _ _ (.reorder (List.Perm.swap dateMember idMember []) (by decide)))
  have hinside : Edit .document depthLimit
      (.object [(plainly "opinion_clusters", .list [.object [dateMember, idMember]])])
      (.object [(plainly "opinion_clusters",
        .list [.object [dateMember, (plainly "court", .null), idMember]])]) :=
    @Edit.member _ _ [] [] _ _ _
      (@Edit.item _ _ [] [] _ _ (@Edit.extra _ _ [dateMember] [idMember] _ _ rfl rfl rfl))
  have houtside : Edit .document depthLimit
      (.object [(plainly "opinion_clusters",
        .list [.object [dateMember, (plainly "court", .null), idMember]])]) longScript :=
    @Edit.extra _ _ [] _ _ _ rfl rfl rfl
  exact ((Relation.EqvGen.rel _ _ hreorder).trans _ _ _ (.rel _ _ hinside)).trans _ _ _
    (.rel _ _ houtside)

theorem shortDocument_isWritten : shortScript.IsWritten shortDocument := by
  have htext : shortDocument.toList = shortScript.lexemes.flatMap fun l => [] ++ l.chars := by cbv
  rw [Script.IsWritten, htext]
  exact spacedOut_flatMap (List.nil_subset _) _

theorem longDocument_isWritten : longScript.IsWritten longDocument := by
  have htext : longDocument.toList = longScript.lexemes.flatMap fun l => [' '] ++ l.chars := by cbv
  rw [Script.IsWritten, htext]
  exact spacedOut_flatMap (by simp [whiteSpace]) _

/-! ### Documents -/

end Precedent
