import Precedent.Proofs.Json.Soundness
import Precedent.Proofs.Json.Whole

/-!
# Precedent.Proofs.Json.Completeness

**What a reader accepts has been written from a script.** A reader does not go past a broken token,
and the lexemes on which it does not fail are those of a script. So scripts are all there is to
JSON, also for a lenient reader, and a text is accepted by the strict one if and only if it has been
written from a sound script.
-/

namespace Precedent.Json

/-! ### Lexemes by their tokens -/

/-- The lexeme of a token that is a single mark. -/
def Token.mark? : Token → Option Lexeme
  | listOpen => some .listOpen
  | listClose => some .listClose
  | objectOpen => some .objectOpen
  | objectClose => some .objectClose
  | comma => some .comma
  | colon => some .colon
  | _ => none

namespace Lexeme

/-- The token of a number is no text. -/
theorem exists_token_number (n : Figure) :
    ∃ v faithful, (number n).token = .scalar v faithful ∧ ∀ s, v ≠ .text s := by
  rw [token]
  split
  · next v hv =>
      refine ⟨v, true, rfl, ?_⟩
      rintro s rfl
      unfold Numeral.value? at hv
      split at hv
      · cases hv
      · cases hdouble : n.numeral.double? <;> simp [hdouble] at hv
  · exact ⟨_, false, rfl, by simp⟩

theorem eq_of_token_eq {l m : Lexeme} {t : Token} (h : l.token = t) (hm : t.mark? = some m) :
    l = m := by
  rw [← h] at hm
  cases l with
  | number n =>
      obtain ⟨v, faithful, htoken, -⟩ := exists_token_number n
      rw [htoken] at hm
      cases hm
  | text pieces =>
      obtain ⟨text, htoken, -⟩ := exists_token_text pieces
      rw [htoken] at hm
      cases hm
  | null => cases hm
  | bool b => cases hm
  | _ => exact Option.some.inj hm

theorem exists_eq_text {l : Lexeme} {n : String} {faithful : Bool}
    (h : l.token = .scalar (.text n) faithful) : ∃ pieces, l = text pieces := by
  cases l with
  | text pieces => exact ⟨pieces, rfl⟩
  | number m =>
      obtain ⟨v, _, htoken, hv⟩ := exists_token_number m
      rw [htoken] at h
      obtain ⟨rfl, -⟩ := Token.scalar.inj h
      exact absurd rfl (hv n)
  | _ => cases h

/-- A scalar is a script by itself. -/
theorem exists_lexemes_eq {l : Lexeme} {v : Json} {faithful : Bool}
    (h : l.token = .scalar v faithful) : ∃ t : Script, t.lexemes = [l] := by
  cases l with
  | null => exact ⟨.null, rfl⟩
  | bool b => exact ⟨.bool b, rfl⟩
  | number n => exact ⟨.number n, rfl⟩
  | text pieces => exact ⟨.text pieces, rfl⟩
  | _ => cases h

end Lexeme

/-! ### What one token does -/

namespace Reading

variable {s : Strictness}

theorem eq_complete_of_finish {r : Reading} {v : Json} (h : r.finish = .ok v) :
    r = .complete [] v := by
  unfold finish at h
  split at h
  · rw [Except.ok.inj h]
  · cases h

/-- A reader does not go past a broken token. -/
theorem isWhole_of_step {r r' : Reading} {t : Token} (h : step s r t = .ok r') : t.IsWhole := by
  rintro inText fault rfl
  cases r with
  | firstName frames => cases inText <;> cases h
  | name frames members => cases inText <;> cases h
  | complete frames v => rcases frames with _ | ⟨_ | _, _⟩ <;> cases h
  | _ => cases h

theorem isWhole_of_foldlM {r r' : Reading} {ts : List Token} (h : ts.foldlM (step s) r = .ok r') :
    ∀ t ∈ ts, t.IsWhole := by
  induction ts generalizing r with
  | nil => exact fun t ht => absurd ht List.not_mem_nil
  | cons t ts ih =>
      rw [List.foldlM_cons] at h
      obtain ⟨r'', hstep, h⟩ := exists_of_bind_eq_ok h
      exact List.forall_mem_cons.mpr ⟨isWhole_of_step hstep, ih h⟩

/-- A value begins with a scalar, which is all of it, or with the opening of a container. -/
theorem beginValue_cases {frames : List Frame} {t : Token} {r : Reading}
    (h : beginValue s frames t = .ok r) :
    (∃ v faithful, t = .scalar v faithful ∧ r = .complete frames v) ∨
      (t = .listOpen ∧ r = .firstItem frames) ∨ (t = .objectOpen ∧ r = .firstName frames) := by
  unfold beginValue at h
  split at h
  · split at h
    · exact .inl ⟨_, _, rfl, (Except.ok.inj h).symm⟩
    · cases h
  · split at h
    · exact .inr (.inl ⟨rfl, (Except.ok.inj h).symm⟩)
    · cases h
  · split at h
    · exact .inr (.inr ⟨rfl, (Except.ok.inj h).symm⟩)
    · cases h
  · cases h
  · cases h

/-- A member begins with its name. -/
theorem beginMember_inv {frames : List Frame} {members : List (String × Json)} {t : Token}
    {r : Reading} (h : beginMember s frames members t = .ok r) :
    ∃ n faithful, t = .scalar (.text n) faithful ∧ r = .colon frames members n := by
  unfold beginMember at h
  split at h
  · split at h
    · exact ⟨_, _, rfl, (Except.ok.inj h).symm⟩
    · cases h
  · cases h
  · cases h

/-- A list begins with its end, or with a value. -/
theorem step_firstItem_cases {frames : List Frame} {t : Token} {r : Reading}
    (h : step s (.firstItem frames) t = .ok r) :
    (t = .listClose ∧ r = .complete frames (.list [])) ∨
      step s (.value (.list [] :: frames)) t = .ok r := by
  cases t with
  | listClose => exact .inl ⟨rfl, (Except.ok.inj h).symm⟩
  | _ => exact .inr h

/-- Behind an item the list ends, or a comma follows. -/
theorem step_complete_list_cases {frames : List Frame} {items : List Json} {v : Json} {t : Token}
    {r : Reading} (h : step s (.complete (.list items :: frames) v) t = .ok r) :
    (t = .listClose ∧ r = .complete frames (.list (v :: items).reverse)) ∨
      (t = .comma ∧ r = .value (.list (v :: items) :: frames)) := by
  cases t with
  | listClose => exact .inl ⟨rfl, (Except.ok.inj h).symm⟩
  | comma => exact .inr ⟨rfl, (Except.ok.inj h).symm⟩
  | _ => cases h

/-- An object begins with its end, or with a name. -/
theorem step_firstName_cases {frames : List Frame} {t : Token} {r : Reading}
    (h : step s (.firstName frames) t = .ok r) :
    (t = .objectClose ∧ r = .complete frames (.object [])) ∨
      step s (.name frames []) t = .ok r := by
  cases t with
  | objectClose => exact .inl ⟨rfl, (Except.ok.inj h).symm⟩
  | _ => exact .inr h

theorem step_colon_inv {frames : List Frame} {members : List (String × Json)} {m : String}
    {t : Token} {r : Reading} (h : step s (.colon frames members m) t = .ok r) :
    t = .colon ∧ r = .value (.object members m :: frames) := by
  cases t with
  | colon => exact ⟨rfl, (Except.ok.inj h).symm⟩
  | _ => cases h

/-- Behind a member the object ends, or a comma follows. -/
theorem step_complete_object_cases {frames : List Frame} {members : List (String × Json)}
    {m : String} {v : Json} {t : Token} {r : Reading}
    (h : step s (.complete (.object members m :: frames) v) t = .ok r) :
    (t = .objectClose ∧ r = .complete frames (.object ((m, v) :: members).reverse)) ∨
      (t = .comma ∧ r = .name frames ((m, v) :: members)) := by
  cases t with
  | objectClose => exact .inl ⟨rfl, (Except.ok.inj h).symm⟩
  | comma => exact .inr ⟨rfl, (Except.ok.inj h).symm⟩
  | _ => cases h

/-! ### What a run of lexemes does -/

/-- A reader goes through the lexemes and has a value then. -/
def Completes (s : Strictness) (r : Reading) (ls : List Lexeme) : Prop :=
  ∃ v, (ls.map Lexeme.token).foldlM (step s) r = .ok (.complete [] v)

theorem completes_cons {r : Reading} {l : Lexeme} {ls : List Lexeme} :
    Completes s r (l :: ls) ↔ ∃ r', step s r l.token = .ok r' ∧ Completes s r' ls := by
  rw [Completes, List.map_cons, List.foldlM_cons]
  constructor
  · intro ⟨v, h⟩
    obtain ⟨r', hstep, hr'⟩ := exists_of_bind_eq_ok h
    exact ⟨r', hstep, v, hr'⟩
  · intro ⟨r', hstep, hr'⟩
    rw [hstep]
    exact hr'

theorem completes_nil {r : Reading} (h : Completes s r []) : ∃ v, r = .complete [] v := by
  obtain ⟨v, hv⟩ := h
  exact ⟨v, Except.ok.inj hv⟩

/-- Nothing may follow a complete value. -/
theorem eq_nil_of_completes {v : Json} {ls : List Lexeme} (h : Completes s (.complete [] v) ls) :
    ls = [] := by
  cases ls with
  | nil => rfl
  | cons l ls =>
      obtain ⟨r, hstep, -⟩ := completes_cons.mp h
      cases hstep

end Reading

namespace Script

open Reading hiding value name

variable {s : Strictness}

/-- Where a value may come and fewer than so many lexemes follow, there is a script. -/
def ValuesAreScripts (s : Strictness) (n : Nat) : Prop :=
  ∀ (frames : List Frame) (ls : List Lexeme), ls.length < n → Completes s (.value frames) ls →
    ∃ (t : Script) (rest : List Lexeme) (v : Json), ls = t.lexemes ++ rest ∧
      Completes s (.complete frames v) rest

section Containers

variable {n : Nat} (hvalues : ValuesAreScripts s n) {frames : List Frame}
include hvalues

/-- Behind an item there are further items up to the end of the list. -/
theorem exists_items {k : Nat} (hk : k ≤ n) {items : List Json} {v : Json} {ls : List Lexeme}
    (hlength : ls.length ≤ k) (h : Completes s (.complete (.list items :: frames) v) ls) :
    ∃ (further : List Script) (rest : List Lexeme) (w : Json),
      ls = lexemesOfItems further ++ .listClose :: rest ∧
        Completes s (.complete frames w) rest := by
  induction k generalizing items v ls with
  | zero =>
      obtain rfl := List.length_eq_zero_iff.mp (Nat.le_zero.mp hlength)
      exact absurd (completes_nil h) (by simp)
  | succ k ih =>
      cases ls with
      | nil => exact absurd (completes_nil h) (by simp)
      | cons l ls =>
          obtain ⟨r, hstep, hr⟩ := completes_cons.mp h
          rw [List.length_cons] at hlength
          rcases step_complete_list_cases hstep with ⟨hl, rfl⟩ | ⟨hl, rfl⟩
          all_goals obtain rfl := Lexeme.eq_of_token_eq hl rfl
          · exact ⟨[], ls, _, rfl, hr⟩
          · obtain ⟨t, ls', w, rfl, ht⟩ := hvalues _ ls (by omega) hr
            rw [List.length_append] at hlength
            obtain ⟨further, rest, w', rfl, hrest⟩ := ih (by omega) (by omega) ht
            refine ⟨t :: further, rest, w', ?_, hrest⟩
            rw [lexemesOfItems, List.cons_append, List.append_assoc]

/-- Behind the opening of a list there is the rest of it. -/
theorem exists_list {ls : List Lexeme} (hlength : ls.length < n)
    (h : Completes s (.firstItem frames) ls) :
    ∃ (items : List Script) (rest : List Lexeme) (v : Json),
      .listOpen :: ls = (Script.list items).lexemes ++ rest ∧
        Completes s (.complete frames v) rest := by
  cases ls with
  | nil => exact absurd (completes_nil h) (by simp)
  | cons l ls =>
      obtain ⟨r, hstep, hr⟩ := completes_cons.mp h
      rcases step_firstItem_cases hstep with ⟨hl, rfl⟩ | hstep
      · obtain rfl := Lexeme.eq_of_token_eq hl rfl
        exact ⟨[], ls, _, rfl, hr⟩
      · obtain ⟨t, ls', v, hls, ht⟩ := hvalues _ _ hlength (completes_cons.mpr ⟨r, hstep, hr⟩)
        have hlength' : ls'.length ≤ n := by
          rw [hls, List.length_append] at hlength
          omega
        obtain ⟨further, rest, w, rfl, hrest⟩ := exists_items hvalues le_rfl hlength' ht
        refine ⟨t :: further, rest, w, ?_, hrest⟩
        rw [hls, lexemes, List.cons_append, List.append_assoc, List.append_assoc,
          List.singleton_append]

/-- Where a name comes, there is a member. -/
theorem exists_member {members : List (String × Json)} {ls : List Lexeme}
    (hlength : ls.length ≤ n + 1) (h : Completes s (.name frames members) ls) :
    ∃ (name : List Piece) (t : Script) (rest : List Lexeme) (m : String) (v : Json),
      ls = .text name :: .colon :: (t.lexemes ++ rest) ∧
        Completes s (.complete (.object members m :: frames) v) rest := by
  cases ls with
  | nil => exact absurd (completes_nil h) (by simp)
  | cons l ls =>
      obtain ⟨r, hstep, hr⟩ := completes_cons.mp h
      obtain ⟨m, faithful, hl, rfl⟩ := beginMember_inv hstep
      obtain ⟨name, rfl⟩ := Lexeme.exists_eq_text hl
      cases ls with
      | nil => exact absurd (completes_nil hr) (by simp)
      | cons l ls =>
          obtain ⟨r, hstep, hr⟩ := completes_cons.mp hr
          obtain ⟨hl, rfl⟩ := step_colon_inv hstep
          obtain rfl := Lexeme.eq_of_token_eq hl rfl
          rw [List.length_cons, List.length_cons] at hlength
          obtain ⟨t, rest, v, rfl, ht⟩ := hvalues _ ls (by omega) hr
          exact ⟨name, t, rest, m, v, rfl, ht⟩

/-- Behind a member there are further members up to the end of the object. -/
theorem exists_members {k : Nat} (hk : k ≤ n) {members : List (String × Json)} {m : String}
    {v : Json} {ls : List Lexeme} (hlength : ls.length ≤ k)
    (h : Completes s (.complete (.object members m :: frames) v) ls) :
    ∃ (further : List (List Piece × Script)) (rest : List Lexeme) (w : Json),
      ls = lexemesOfMembers further ++ .objectClose :: rest ∧
        Completes s (.complete frames w) rest := by
  induction k generalizing members m v ls with
  | zero =>
      obtain rfl := List.length_eq_zero_iff.mp (Nat.le_zero.mp hlength)
      exact absurd (completes_nil h) (by simp)
  | succ k ih =>
      cases ls with
      | nil => exact absurd (completes_nil h) (by simp)
      | cons l ls =>
          obtain ⟨r, hstep, hr⟩ := completes_cons.mp h
          rw [List.length_cons] at hlength
          rcases step_complete_object_cases hstep with ⟨hl, rfl⟩ | ⟨hl, rfl⟩
          all_goals obtain rfl := Lexeme.eq_of_token_eq hl rfl
          · exact ⟨[], ls, _, rfl, hr⟩
          · obtain ⟨name, t, ls', m', w, rfl, ht⟩ := exists_member hvalues (by omega) hr
            simp only [List.length_cons, List.length_append] at hlength
            obtain ⟨further, rest, w', rfl, hrest⟩ := ih (by omega) (by omega) ht
            refine ⟨(name, t) :: further, rest, w', ?_, hrest⟩
            rw [lexemesOfMembers, List.cons_append, List.cons_append, List.cons_append,
              List.append_assoc]

/-- Behind the opening of an object there is the rest of it. -/
theorem exists_object {ls : List Lexeme} (hlength : ls.length < n)
    (h : Completes s (.firstName frames) ls) :
    ∃ (members : List (List Piece × Script)) (rest : List Lexeme) (v : Json),
      .objectOpen :: ls = (Script.object members).lexemes ++ rest ∧
        Completes s (.complete frames v) rest := by
  cases ls with
  | nil => exact absurd (completes_nil h) (by simp)
  | cons l ls =>
      obtain ⟨r, hstep, hr⟩ := completes_cons.mp h
      rcases step_firstName_cases hstep with ⟨hl, rfl⟩ | hname
      · obtain rfl := Lexeme.eq_of_token_eq hl rfl
        exact ⟨[], ls, _, rfl, hr⟩
      · have hmember : Completes s (.name frames []) (l :: ls) :=
          completes_cons.mpr ⟨r, hname, hr⟩
        obtain ⟨name, t, ls', m, v, hls, ht⟩ := exists_member hvalues (by omega) hmember
        rw [hls] at hlength ⊢
        simp only [List.length_cons, List.length_append] at hlength
        obtain ⟨further, rest, w, rfl, hrest⟩ := exists_members hvalues le_rfl (by omega) ht
        refine ⟨(name, t) :: further, rest, w, ?_, hrest⟩
        rw [lexemes, List.cons_append, List.cons_append, List.cons_append, List.append_assoc,
          List.append_assoc, List.singleton_append]

end Containers

theorem valuesAreScripts (s : Strictness) (n : Nat) : ValuesAreScripts s n := by
  induction n with
  | zero => exact fun frames ls hlength => absurd hlength (Nat.not_lt_zero _)
  | succ n ih =>
      intro frames ls hlength h
      cases ls with
      | nil => exact absurd (completes_nil h) (by simp)
      | cons l ls =>
          obtain ⟨r, hstep, hr⟩ := completes_cons.mp h
          rcases beginValue_cases hstep with ⟨v, faithful, hl, rfl⟩ | ⟨hl, rfl⟩ | ⟨hl, rfl⟩
          · obtain ⟨t, ht⟩ := Lexeme.exists_lexemes_eq hl
            exact ⟨t, ls, v, by rw [ht]; rfl, hr⟩
          · obtain rfl := Lexeme.eq_of_token_eq hl rfl
            obtain ⟨items, hitems⟩ := exists_list ih (Nat.lt_of_succ_lt_succ hlength) hr
            exact ⟨.list items, hitems⟩
          · obtain rfl := Lexeme.eq_of_token_eq hl rfl
            obtain ⟨members, hmembers⟩ := exists_object ih (Nat.lt_of_succ_lt_succ hlength) hr
            exact ⟨.object members, hmembers⟩

end Script

/-- **What a reader accepts has been written from a script,** also if the reader is lenient. -/
theorem exists_isWritten_of_ofTokens {s : Strictness} {text : String} {v : Json}
    (h : ofTokens s (tokens text.toList) = .ok v) : ∃ t : Script, t.IsWritten text := by
  obtain ⟨r, hrun, hfinish⟩ := exists_of_bind_eq_ok h
  obtain ⟨ls, hls, htokens⟩ := exists_spacedOut text.toList (Reading.isWhole_of_foldlM hrun)
  rw [htokens, Reading.eq_complete_of_finish hfinish] at hrun
  obtain ⟨t, rest, w, hlexemes, hrest⟩ :=
    Script.valuesAreScripts s (ls.length + 1) [] ls (Nat.lt_succ_self _) ⟨v, hrun⟩
  obtain rfl := Reading.eq_nil_of_completes hrest
  rw [List.append_nil] at hlexemes
  obtain rfl := hlexemes
  exact ⟨t, hls⟩

/-- **A text is accepted if and only if it has been written from a sound script,** whose value is
the answer. -/
theorem read_eq_ok_iff {text : String} {v : Json} : read text = .ok v ↔
    ∃ t : Script, t.IsWritten text ∧ t.isSound depthLimit = true ∧ t.value.canonical = v := by
  constructor
  · intro h
    obtain ⟨u, hu, -⟩ := exists_of_bind_eq_ok h
    obtain ⟨t, ht⟩ := exists_isWritten_of_ofTokens hu
    rw [read_of_isWritten ht] at h
    split at h
    · next hsound => exact ⟨t, ht, hsound, Except.ok.inj h⟩
    · cases h
  · rintro ⟨t, ht, hsound, rfl⟩
    rw [read_of_isWritten ht, if_pos hsound]

end Precedent.Json
