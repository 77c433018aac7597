import Precedent.Json.Reader
import Precedent.Proofs.Json.Lexemes

/-!
# Precedent.Proofs.Json.Soundness

**The reader answers the value of a sound script.** It goes through the lexemes of a script and
stands behind them with its value, whatever containers are open and whatever follows, if the script
is sound for the room that these containers leave; otherwise it refuses the text. So whether a text
is refused, and which value it has, can be said of its script alone, and white space has no part in
it.
-/

namespace Precedent.Json

namespace Reading

/-- Where a strict reader stands after some more lexemes. -/
def after (r : Reading) (ls : List Lexeme) : Except Fault Reading :=
  (ls.map Lexeme.token).foldlM (step .strict) r

section Steps

variable {r r' : Reading} {l : Lexeme} {fault : Fault} {frames : List Frame}

theorem after_cons (h : step .strict r l.token = .ok r') (ls : List Lexeme) :
    after r (l :: ls) = after r' ls := by
  rw [after, List.map_cons, List.foldlM_cons, h]
  rfl

theorem after_cons_error (h : step .strict r l.token = .error fault) (ls : List Lexeme) :
    after r (l :: ls) = .error fault := by
  rw [after, List.map_cons, List.foldlM_cons, h]
  rfl

/-- A lexeme that is taken up on a condition. -/
theorem after_cons_ite {b : Bool}
    (h : step .strict r l.token = if b then .ok r' else .error .malformed) (ls : List Lexeme) :
    after r (l :: ls) = if b then after r' ls else .error .malformed := by
  cases b with
  | true => exact after_cons h ls
  | false => exact after_cons_error h ls

/-- A text that means nothing cannot stand anywhere. -/
theorem step_value_text (frames : List Frame) (pieces : List Piece) :
    step .strict (.value frames) (Lexeme.text pieces).token =
      if (meaning? pieces).isSome then .ok (.complete frames (.text (meaning pieces)))
      else .error .malformed := by
  obtain ⟨s, htoken, hs⟩ := Lexeme.exists_token_text pieces
  rw [htoken]
  cases hmeaning : (meaning? pieces).isSome with
  | true => exact hs hmeaning ▸ rfl
  | false => rfl

theorem beginMember_text (frames : List Frame) (members : List (String × Json))
    (pieces : List Piece) :
    beginMember .strict frames members (Lexeme.text pieces).token =
      if (meaning? pieces).isSome then .ok (.colon frames members (meaning pieces))
      else .error .malformed := by
  obtain ⟨s, htoken, hs⟩ := Lexeme.exists_token_text pieces
  rw [htoken]
  cases hmeaning : (meaning? pieces).isSome with
  | true => exact hs hmeaning ▸ rfl
  | false => rfl

theorem step_value_number (frames : List Frame) (n : Figure) :
    step .strict (.value frames) (Lexeme.number n).token =
      if n.numeral.value?.isSome then .ok (.complete frames (n.numeral.value?.getD .null))
      else .error .malformed := by
  rw [Lexeme.token]
  cases n.numeral.value? with
  | none => rfl
  | some v => rfl

variable {room : Nat} (hroom : frames.length + room = depthLimit)
include hroom

/-- There is room for one more container. -/
theorem decide_length_lt : decide (frames.length < depthLimit) = decide (0 < room) := by
  rw [decide_eq_decide]
  omega

theorem step_value_listOpen :
    step .strict (.value frames) .listOpen =
      if decide (0 < room) then .ok (.firstItem frames) else .error .malformed := by
  rw [← decide_length_lt hroom]
  rfl

theorem step_value_objectOpen :
    step .strict (.value frames) .objectOpen =
      if decide (0 < room) then .ok (.firstName frames) else .error .malformed := by
  rw [← decide_length_lt hroom]
  rfl

end Steps

end Reading

namespace Script

open Reading hiding value name

/-- A script does not start with the end of a list. -/
theorem exists_lexemes_eq_cons (t : Script) :
    ∃ l ls, t.lexemes = l :: ls ∧ l.token ≠ .listClose := by
  cases t with
  | number n =>
      refine ⟨_, _, rfl, ?_⟩
      rw [Lexeme.token]
      split <;> simp
  | text pieces => exact ⟨_, _, rfl, by simp [Lexeme.token, Gathered.finish]⟩
  | list items => cases items <;> exact ⟨_, _, rfl, by simp [Lexeme.token]⟩
  | object members =>
      rcases members with _ | ⟨⟨name, t⟩, rest⟩ <;> exact ⟨_, _, rfl, by simp [Lexeme.token]⟩
  | _ => exact ⟨_, _, rfl, by simp [Lexeme.token]⟩

/-- The first item of a list is read like any other. -/
theorem after_firstItem (t : Script) (frames : List Frame) (ls : List Lexeme) :
    after (.firstItem frames) (t.lexemes ++ ls) =
      after (.value (.list [] :: frames)) (t.lexemes ++ ls) := by
  obtain ⟨l, ls', hlexemes, hne⟩ := t.exists_lexemes_eq_cons
  have hstep : step .strict (.firstItem frames) l.token =
      step .strict (.value (.list [] :: frames)) l.token := by
    generalize l.token = token at hne ⊢
    cases token <;> first | rfl | exact absurd rfl hne
  rw [hlexemes, List.cons_append, after, after, List.map_cons, List.foldlM_cons, List.foldlM_cons,
    hstep]

/-- What a reader makes of a script where a value comes next. -/
def IsTaken (room : Nat) (frames : List Frame) (t : Script) : Prop :=
  ∀ ls, after (.value frames) (t.lexemes ++ ls) =
    if t.isSound room then after (.complete frames t.value) ls else .error .malformed

/-- A member is read where a name may stand. -/
theorem after_member {r : Reading} {frames : List Frame} {members : List (String × Json)}
    {name : List Piece} {room : Nat} {t : Script}
    (hname : step .strict r (Lexeme.text name).token =
      if (meaning? name).isSome then .ok (.colon frames members (meaning name))
      else .error .malformed)
    (ht : t.IsTaken room (.object members (meaning name) :: frames)) (ls : List Lexeme) :
    after r (.text name :: .colon :: (t.lexemes ++ ls)) =
      if (meaning? name).isSome && t.isSound room then
        after (.complete (.object members (meaning name) :: frames) t.value) ls
      else .error .malformed := by
  rw [after_cons_ite hname, after_cons rfl, ht]
  cases (meaning? name).isSome <;> rfl

mutual
/-- A script is taken up as its value if it is sound, and refused otherwise. -/
theorem isTaken (t : Script) {room : Nat} {frames : List Frame}
    (hroom : frames.length + room = depthLimit) : t.IsTaken room frames := by
  intro ls
  match t with
  | .null => exact after_cons rfl ls
  | .bool b => exact after_cons rfl ls
  | .number n => exact after_cons_ite (step_value_number frames n) ls
  | .text pieces => exact after_cons_ite (step_value_text frames pieces) ls
  | .list items => exact isTaken_list items hroom ls
  | .object members => exact isTaken_object members hroom ls
theorem isTaken_list (items : List Script) {room : Nat} {frames : List Frame}
    (hroom : frames.length + room = depthLimit) : (Script.list items).IsTaken room frames := by
  intro ls
  have hopen : step .strict (.value frames) Lexeme.listOpen.token = _ := step_value_listOpen hroom
  cases room with
  | zero => cases items <;> exact after_cons_error hopen _
  | succ room =>
      match items with
      | [] => exact (after_cons hopen _).trans (after_cons rfl ls)
      | t :: rest =>
          have hroom' : frames.length + 1 + room = depthLimit := by omega
          have ht : t.IsTaken room (.list [] :: frames) := isTaken t hroom'
          have hrest := after_lexemesOfItems rest hroom' t.value [] ls
          rw [lexemes, List.cons_append, List.append_assoc, List.append_assoc,
            List.singleton_append, after_cons hopen, after_firstItem, ht, hrest,
            isSound_list_succ, areSound]
          cases t.isSound room <;> rfl
theorem isTaken_object (members : List (List Piece × Script)) {room : Nat} {frames : List Frame}
    (hroom : frames.length + room = depthLimit) :
    (Script.object members).IsTaken room frames := by
  intro ls
  have hopen : step .strict (.value frames) Lexeme.objectOpen.token = _ :=
    step_value_objectOpen hroom
  cases room with
  | zero => rcases members with _ | ⟨⟨name, t⟩, rest⟩ <;> exact after_cons_error hopen _
  | succ room =>
      match members with
      | [] => exact (after_cons hopen _).trans (after_cons rfl ls)
      | (name, t) :: rest =>
          have hroom' : frames.length + 1 + room = depthLimit := by omega
          have ht : t.IsTaken room (.object [] (meaning name) :: frames) := isTaken t hroom'
          have hrest := after_lexemesOfMembers rest hroom' (meaning name) t.value [] ls
          rw [lexemes, List.cons_append, List.cons_append, List.cons_append, List.append_assoc,
            List.append_assoc, List.singleton_append, after_cons hopen,
            after_member (r := .firstName frames) (beginMember_text frames [] name) ht, hrest,
            isSound_object_succ, areSoundMembers]
          cases (meaning? name).isSome && t.isSound room <;> rfl
/-- The further items of a list are taken up to its end. -/
theorem after_lexemesOfItems (items : List Script) {room : Nat} {frames : List Frame}
    (hroom : frames.length + 1 + room = depthLimit) (v : Json) (seen : List Json)
    (ls : List Lexeme) :
    after (.complete (.list seen :: frames) v) (lexemesOfItems items ++ (.listClose :: ls)) =
      if areSound room items then
        after (.complete frames (.list (seen.reverse ++ v :: valuesOfItems items))) ls
      else .error .malformed := by
  match items with
  | [] =>
      rw [valuesOfItems, ← List.reverse_cons]
      exact after_cons rfl ls
  | t :: rest =>
      have ht : t.IsTaken room (.list (v :: seen) :: frames) := isTaken t hroom
      have hrest := after_lexemesOfItems rest hroom t.value (v :: seen) ls
      rw [lexemesOfItems, List.cons_append, List.append_assoc, after_cons rfl, ht, hrest,
        areSound, valuesOfItems, List.reverse_cons, List.append_assoc, List.singleton_append]
      cases t.isSound room <;> rfl
/-- The further members of an object are taken up to its end. -/
theorem after_lexemesOfMembers (members : List (List Piece × Script)) {room : Nat}
    {frames : List Frame} (hroom : frames.length + 1 + room = depthLimit) (name : String) (v : Json)
    (seen : List (String × Json)) (ls : List Lexeme) :
    after (.complete (.object seen name :: frames) v)
        (lexemesOfMembers members ++ (.objectClose :: ls)) =
      if areSoundMembers room members then
        after (.complete frames (.object (seen.reverse ++ (name, v) :: valuesOfMembers members))) ls
      else .error .malformed := by
  match members with
  | [] =>
      rw [valuesOfMembers, ← List.reverse_cons]
      exact after_cons rfl ls
  | (name', t) :: rest =>
      have ht : t.IsTaken room (.object ((name, v) :: seen) (meaning name') :: frames) :=
        isTaken t hroom
      have hrest := after_lexemesOfMembers rest hroom (meaning name') t.value ((name, v) :: seen) ls
      rw [lexemesOfMembers, List.cons_append, List.cons_append, List.cons_append, List.append_assoc,
        after_cons rfl, after_member (r := .name frames _) (beginMember_text frames _ name') ht,
        hrest, areSoundMembers, valuesOfMembers, List.reverse_cons, List.append_assoc,
        List.singleton_append]
      cases (meaning? name').isSome && t.isSound room <;> rfl
end

end Script

/-- **The value of a text is that of its script, if the script is sound.** -/
theorem read_of_isWritten {t : Script} {text : String} (h : t.IsWritten text) :
    read text = if t.isSound depthLimit then .ok t.value.canonical else .error .malformed := by
  have htaken : t.IsTaken depthLimit [] := t.isTaken (Nat.zero_add depthLimit)
  have hrun := htaken []
  rw [List.append_nil, Reading.after] at hrun
  rw [read, ofTokens, h.tokens_eq, hrun]
  cases t.isSound depthLimit <;> rfl

end Precedent.Json
