import Precedent.Json.Reader
import Precedent.Proofs.Json.Members
import Precedent.Proofs.Json.Tokens

/-!
# Precedent.Proofs.Json.RoundTrip

**What is written can be read back.** A value is `Readable` when its numbers are whole and fit 64
bits and its containers are not nested too deeply. The strict reader goes through the text of such a
value and stands behind it with the value complete, whatever containers are open around it and
whatever follows (`Readable.passes`). So the value that it gives for a whole text is the one that
was written, in canonical form.
-/

namespace Precedent.Json

open Number

/-- A value that can be read back where there is room for the given number of containers inside each
other. -/
inductive Readable : Nat → Json → Prop
  | null {room : Nat} : Readable room .null
  | bool {room : Nat} (b : Bool) : Readable room (.bool b)
  | int {room : Nat} {n : Int} (fits : fitsUnsigned n = true ∨ fitsSigned n = true) :
      Readable room (.int n)
  | text {room : Nat} (s : String) : Readable room (.text s)
  | list {room : Nat} {items : List Json} (inside : ∀ v ∈ items, Readable room v) :
      Readable (room + 1) (.list items)
  | object {room : Nat} {members : List (String × Json)}
      (inside : ∀ m ∈ members, Readable room m.2) : Readable (room + 1) (.object members)

section Objects

variable {room : Nat}

@[simp] theorem readable_text (s : String) : Readable room (.text s) := .text s

@[simp] theorem readable_object_nil : Readable (room + 1) (.object []) := .object (by simp)

@[simp] theorem readable_object_cons {name : String} {v : Json} {members : List (String × Json)} :
    Readable (room + 1) (.object ((name, v) :: members)) ↔
      Readable room v ∧ Readable (room + 1) (.object members) := by
  constructor
  · rintro ⟨⟩
    next inside =>
      obtain ⟨hv, hmembers⟩ := List.forall_mem_cons.mp inside
      exact ⟨hv, .object hmembers⟩
  · rintro ⟨hv, ⟨⟩⟩
    next inside => exact .object (List.forall_mem_cons.mpr ⟨hv, inside⟩)

end Objects

/-! ### One token after the other -/

namespace Reading

/-- Where a strict reader stands after some more text. -/
def run (r : Reading) (cs : List Char) : Except Fault Reading :=
  (tokens cs).foldlM (step .strict) r

@[simp] theorem run_nil (r : Reading) : run r [] = .ok r := by
  rw [run, tokens_nil]
  rfl

theorem run_of_tokens {cs rest : List Char} {t : Token} {r r' : Reading}
    (hcs : tokens cs = t :: tokens rest) (hstep : step .strict r t = .ok r') :
    run r cs = run r' rest := by
  rw [run, hcs, List.foldlM_cons, hstep]
  rfl

/-- A token of one character. -/
theorem run_cons {c : Char} {rest : List Char} {t : Token} {r r' : Reading}
    (hspace : isSpace c = false) (hnext : nextToken c rest = (t, rest))
    (hstep : step .strict r t = .ok r') : run r (c :: rest) = run r' rest :=
  run_of_tokens (tokens_of_nextToken hspace hnext le_rfl) hstep

@[simp] theorem run_newLine (r : Reading) (depth : Nat) (rest : List Char) :
    run r (newLine depth ++ rest) = run r rest := by
  rw [run, tokens_newLine, run]

@[simp] theorem run_space (r : Reading) (rest : List Char) : run r (' ' :: rest) = run r rest := by
  rw [run, tokens_of_isSpace rfl, run]

end Reading

/-! ### One value after the other -/

theorem endsNumber_writtenItems (depth depth' : Nat) (items : List Json) (rest : List Char) :
    EndsNumber (writtenItems depth items ++ (newLine depth' ++ rest)) := by
  cases items with
  | nil => exact endsNumber_newLine depth' rest
  | cons v items => exact endsNumber_comma _

theorem endsNumber_writtenMembers (depth depth' : Nat) (members : List (String × Json))
    (rest : List Char) : EndsNumber (writtenMembers depth members ++ (newLine depth' ++ rest)) := by
  cases members with
  | nil => exact endsNumber_newLine depth' rest
  | cons m members => exact endsNumber_comma _

section Values

variable {room : Nat} {v : Json} {rest : List Char} {frames : List Frame}

theorem tokens_written_null (depth : Nat) (rest : List Char) :
    tokens (written depth .null ++ rest) = .scalar .null true :: tokens rest :=
  tokens_of_nextToken (c := 'n') rfl rfl (by simp; omega)

theorem tokens_written_bool (depth : Nat) (b : Bool) (rest : List Char) :
    tokens (written depth (.bool b) ++ rest) = .scalar (.bool b) true :: tokens rest := by
  cases b with
  | false => exact tokens_of_nextToken (c := 'f') rfl rfl (by simp; omega)
  | true => exact tokens_of_nextToken (c := 't') rfl rfl (by simp; omega)

/-- The text of a value does not start with the end of a list. -/
theorem exists_tokens_written (h : Readable room v) (hrest : EndsNumber rest) (depth : Nat) :
    ∃ t ts, tokens (written depth v ++ rest) = t :: ts ∧ t ≠ .listClose := by
  cases h with
  | null => exact ⟨_, _, tokens_written_null .., by simp⟩
  | bool b => exact ⟨_, _, tokens_written_bool .., by simp⟩
  | int fits => exact ⟨_, _, tokens_writtenInt fits hrest, by simp⟩
  | text s => exact ⟨_, _, tokens_writtenText .., by simp⟩
  | @list _ items _ =>
      cases items with
      | nil => exact ⟨_, _, tokens_of_nextToken (c := '[') rfl rfl le_rfl, by simp⟩
      | cons v items => exact ⟨_, _, tokens_of_nextToken (c := '[') rfl rfl le_rfl, by simp⟩
  | @object _ members _ =>
      cases members with
      | nil => exact ⟨_, _, tokens_of_nextToken (c := '{') rfl rfl le_rfl, by simp⟩
      | cons m members => exact ⟨_, _, tokens_of_nextToken (c := '{') rfl rfl le_rfl, by simp⟩

namespace Reading

/-- The first item of a list is read like any other. -/
theorem run_firstItem (h : Readable room v) (hrest : EndsNumber rest) (depth : Nat)
    (frames : List Frame) :
    run (.firstItem frames) (written depth v ++ rest) =
      run (.value (.list [] :: frames)) (written depth v ++ rest) := by
  obtain ⟨t, ts, hts, hne⟩ := exists_tokens_written h hrest depth
  have hstep : step .strict (.firstItem frames) t =
      step .strict (.value (.list [] :: frames)) t := by
    cases t <;> first | rfl | exact absurd rfl hne
  rw [run, run, hts, List.foldlM_cons, List.foldlM_cons, hstep]

/-- A strict reader passes over the text of a value where there is room for so many containers, and
has the value then. -/
def Passes (room : Nat) (v : Json) : Prop :=
  ∀ (depth : Nat) (frames : List Frame) (rest : List Char), frames.length + room ≤ depthLimit →
    EndsNumber rest → run (.value frames) (written depth v ++ rest) = run (.complete frames v) rest

theorem Passes.of_tokens {x : Json}
    (h : ∀ (depth : Nat) (rest : List Char), EndsNumber rest →
      tokens (written depth x ++ rest) = .scalar x true :: tokens rest) : Passes room x := by
  intro depth frames rest _ hrest
  exact run_of_tokens (h depth rest hrest) rfl

/-- The further items of a list are read up to its end. -/
theorem run_writtenItems {items : List Json} (h : ∀ v ∈ items, Passes room v)
    (hroom : frames.length + 1 + room ≤ depthLimit) (depth depth' : Nat) (v : Json)
    (seen : List Json) (rest : List Char) :
    run (.complete (.list seen :: frames) v)
        (writtenItems depth items ++ (newLine depth' ++ ']' :: rest)) =
      run (.complete frames (.list (seen.reverse ++ v :: items))) rest := by
  induction items generalizing v seen with
  | nil =>
      rw [writtenItems, List.nil_append, run_newLine, ← List.reverse_cons]
      exact run_cons rfl rfl rfl
  | cons v' items ih =>
      have hv' := h v' List.mem_cons_self depth (.list (v :: seen) :: frames)
        (writtenItems depth items ++ (newLine depth' ++ ']' :: rest)) hroom
        (endsNumber_writtenItems depth depth' items _)
      have hitems := ih (fun w hw => h w (List.mem_cons_of_mem _ hw)) v' (v :: seen)
      simp only [writtenItems, List.append_assoc, List.cons_append]
      rw [run_cons (t := .comma) rfl rfl rfl, run_newLine, hv', hitems, List.reverse_cons,
        List.append_assoc, List.singleton_append]

/-- A member is read where a name may stand. -/
theorem run_member (h : Passes room v) (hroom : frames.length + 1 + room ≤ depthLimit)
    {r : Reading} {members : List (String × Json)} (name : String)
    (hname : step .strict r (.scalar (.text name) true) = .ok (.colon frames members name))
    (depth : Nat) (hrest : EndsNumber rest) :
    run r (writtenText name ++ ':' :: ' ' :: (written depth v ++ rest)) =
      run (.complete (.object members name :: frames) v) rest := by
  rw [run_of_tokens (tokens_writtenText ..) hname, run_cons (t := .colon) rfl rfl rfl, run_space]
  exact h depth _ rest hroom hrest

/-- The further members of an object are read up to its end. -/
theorem run_writtenMembers {members : List (String × Json)} (h : ∀ m ∈ members, Passes room m.2)
    (hroom : frames.length + 1 + room ≤ depthLimit) (depth depth' : Nat) (name : String) (v : Json)
    (seen : List (String × Json)) (rest : List Char) :
    run (.complete (.object seen name :: frames) v)
        (writtenMembers depth members ++ (newLine depth' ++ '}' :: rest)) =
      run (.complete frames (.object (seen.reverse ++ (name, v) :: members))) rest := by
  induction members generalizing name v seen with
  | nil =>
      rw [writtenMembers, List.nil_append, run_newLine, ← List.reverse_cons]
      exact run_cons rfl rfl rfl
  | cons m members ih =>
      obtain ⟨name', v'⟩ := m
      have hv' := run_member (h (name', v') List.mem_cons_self) hroom
        (r := .name frames ((name, v) :: seen)) name' rfl depth
        (endsNumber_writtenMembers depth depth' members ('}' :: rest))
      have hmembers := ih (fun w hw => h w (List.mem_cons_of_mem _ hw)) name' v' ((name, v) :: seen)
      simp only [writtenMembers, List.append_assoc, List.cons_append, List.nil_append]
      rw [run_cons (t := .comma) rfl rfl rfl, run_newLine, hv', hmembers, List.reverse_cons,
        List.append_assoc, List.singleton_append]

end Reading

open Reading

/-- A strict reader passes over the text of every value that can be read back. -/
theorem Readable.passes (h : Readable room v) : Passes room v := by
  induction h with
  | null => exact .of_tokens fun depth rest _ => tokens_written_null depth rest
  | bool b => exact .of_tokens fun depth rest _ => tokens_written_bool depth b rest
  | int fits => exact .of_tokens fun _ _ hrest => tokens_writtenInt fits hrest
  | text s => exact .of_tokens fun _ rest _ => tokens_writtenText s rest
  | @list room items inside ih =>
      intro depth frames rest hroom _
      have hopen : step .strict (.value frames) .listOpen = .ok (.firstItem frames) :=
        if_pos (by simp; omega)
      cases items with
      | nil => exact (run_cons rfl rfl hopen).trans (run_cons rfl rfl rfl)
      | cons v items =>
          have hends := endsNumber_writtenItems (depth + 1) depth items (']' :: rest)
          have hroom' : (Frame.list [] :: frames).length + room ≤ depthLimit := by
            rw [List.length_cons]
            omega
          have hfirst := run_firstItem (inside v List.mem_cons_self) hends (depth + 1) frames
          have hitems := run_writtenItems (fun w hw => ih w (List.mem_cons_of_mem _ hw)) hroom'
            (depth + 1) depth v [] rest
          simp only [written, List.append_assoc, List.cons_append, List.nil_append]
          rw [run_cons rfl rfl hopen, run_newLine, hfirst,
            ih v List.mem_cons_self _ _ _ hroom' hends, hitems]
          rfl
  | @object room members inside ih =>
      intro depth frames rest hroom _
      have hopen : step .strict (.value frames) .objectOpen = .ok (.firstName frames) :=
        if_pos (by simp; omega)
      cases members with
      | nil => exact (run_cons rfl rfl hopen).trans (run_cons rfl rfl rfl)
      | cons m members =>
          obtain ⟨name, v⟩ := m
          have hends := endsNumber_writtenMembers (depth + 1) depth members ('}' :: rest)
          have hroom' : frames.length + 1 + room ≤ depthLimit := by omega
          have hfirst := run_member (ih (name, v) List.mem_cons_self) hroom'
            (r := .firstName frames) name rfl (depth + 1) hends
          have hmembers := run_writtenMembers (fun w hw => ih w (List.mem_cons_of_mem _ hw)) hroom'
            (depth + 1) depth name v [] rest
          simp only [written, List.append_assoc, List.cons_append, List.nil_append]
          rw [run_cons rfl rfl hopen, run_newLine, hfirst, hmembers]
          rfl

/-- **The strict reader reads back what was written,** in canonical form. -/
theorem read_pretty (h : Readable depthLimit v) : read v.pretty = .ok v.canonical := by
  have hrun := h.passes 0 [] [] (by simp) endsNumber_nil
  rw [List.append_nil, run_nil, run] at hrun
  rw [read, ofTokens, pretty, String.toList_ofList, hrun]
  rfl

/-- The canonical form holds nothing that was not there. -/
theorem Readable.canonical (h : Readable room v) : Readable room v.canonical := by
  induction h with
  | null => exact .null
  | bool b => exact .bool b
  | int fits => exact .int fits
  | text s => exact .text s
  | list inside ih =>
      rw [Json.canonical, canonicalItems_eq_map]
      refine .list fun w hw => ?_
      obtain ⟨v, hv, rfl⟩ := List.mem_map.mp hw
      exact ih v hv
  | object inside ih =>
      rw [Json.canonical, canonicalMembers_eq_map]
      refine .object fun m' hm' => ?_
      obtain ⟨m, hm, rfl⟩ := List.mem_map.mp (Entries.mem_of_mem_ofList hm')
      exact ih m hm

/-- A value in canonical form is read back as it is. -/
theorem read_pretty_canonical (h : Readable depthLimit v.canonical) :
    read v.canonical.pretty = .ok v.canonical := by
  rw [read_pretty h, canonical_canonical]

end Values

end Precedent.Json
