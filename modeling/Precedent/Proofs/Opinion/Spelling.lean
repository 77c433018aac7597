import Precedent.Document.Citations
import Precedent.Proofs.Report.Saved

/-!
# Precedent.Proofs.Opinion.Spelling

**Every identifier has one text of its own.** A number is spelled in many ways (`Text.Spells`), and
all of them are one identifier; a text that spells no number of 64 bits is itself, less the blanks
around it. What an identifier is written as, a text, a JSON value or the name of a member, is read
as this identifier again, so no two identifiers that have been read look the same.
-/

namespace Precedent

namespace Text

/-- A text spells a number: blanks around it, one plus sign at most, and any number of zeros in
front of its digits. -/
inductive Spells (n : Nat) : List Char → Prop
  | intro {before sign after : List Char} (zeros : Nat)
      (hbefore : ∀ c ∈ before, isBlank c = true) (hsign : sign = [] ∨ sign = ['+'])
      (hafter : ∀ c ∈ after, isBlank c = true) :
      Spells n (before ++ (sign ++ (List.replicate zeros '0' ++ digitsOf n) ++ after))

section Zeros

variable {zeros n : Nat}

theorem isDigit_of_mem_zeros {c : Char} (h : c ∈ List.replicate zeros '0' ++ digitsOf n) :
    c.isDigit = true := by
  rcases List.mem_append.mp h with h | h
  · rw [List.eq_of_mem_replicate h]
    rfl
  · exact isDigit_of_mem_digitsOf h

theorem zeros_ne_nil : List.replicate zeros '0' ++ digitsOf n ≠ [] :=
  List.append_ne_nil_of_right_ne_nil _ (digitsOf_ne_nil n)

end Zeros

theorem digits?_eq_some_iff {cs : List Char} {n : Nat} :
    digits? cs = some n ↔ ∃ zeros, cs = List.replicate zeros '0' ++ digitsOf n := by
  rw [digits?]
  constructor
  · intro h
    split at h
    next hrun =>
      obtain rfl := Option.some.inj h
      simp only [Bool.and_eq_true, Bool.not_eq_true', List.isEmpty_eq_false_iff,
        List.all_eq_true] at hrun
      exact exists_zeros_of_digits hrun.1 hrun.2
    next => cases h
  · rintro ⟨zeros, rfl⟩
    have hall : (List.replicate zeros '0' ++ digitsOf n).all Char.isDigit = true :=
      List.all_eq_true.mpr fun _ => isDigit_of_mem_zeros
    have hvalue : Nat.ofDigitChars 10 (List.replicate zeros '0' ++ digitsOf n) 0 = n := by
      rw [Nat.ofDigitChars_append, Nat.ofDigitChars_replicate_zero, Nat.mul_zero,
        ofDigitChars_digitsOf]
    rw [hall, hvalue, List.isEmpty_eq_false_iff.mpr zeros_ne_nil]
    rfl

/-- A number as a word, if 64 bits hold it. -/
def fitted? (m : Nat) : Option UInt64 :=
  if h : m < UInt64.size then some (UInt64.ofNatLT m h) else none

theorem fitted?_eq_some_iff {m : Nat} {n : UInt64} : fitted? m = some n ↔ m = n.toNat := by
  rw [fitted?]
  by_cases hm : m < UInt64.size
  · simp [hm, ← UInt64.toNat_inj]
  · have hne : m ≠ n.toNat := fun heq => hm (heq ▸ n.toNat_lt)
    simp [hm, hne]

theorem word?_plus (run : List Char) : word? ('+' :: run) = (digits? run).bind fitted? := by
  simp only [word?]
  cases digits? run <;> rfl

/-- Without a plus sign in front, the whole numeral is the run. -/
theorem word?_of_head? {cs : List Char} (h : cs.head? ≠ some '+') :
    word? cs = (digits? cs).bind fitted? := by
  cases cs with
  | nil => rfl
  | cons c run =>
      have hc : c ≠ '+' := fun hc => h (congrArg some hc)
      simp only [word?, List.cons.injEq, hc, false_and, imp_self, implies_true]
      cases digits? (c :: run) <;> rfl

/-- A numeral of 64 bits is a run of digits, with or without a plus sign. -/
theorem word?_eq_some_iff {cs : List Char} {n : UInt64} : word? cs = some n ↔
    ∃ sign run, (sign = [] ∨ sign = ['+']) ∧ cs = sign ++ run ∧ digits? run = some n.toNat := by
  have hbind : ∀ run, (digits? run).bind fitted? = some n ↔ digits? run = some n.toNat := by
    intro run
    simp [Option.bind_eq_some_iff, fitted?_eq_some_iff]
  constructor
  · intro h
    by_cases hplus : cs.head? = some '+'
    · obtain ⟨run, rfl⟩ := List.head?_eq_some_iff.mp hplus
      rw [word?_plus, hbind] at h
      exact ⟨['+'], run, Or.inr rfl, rfl, h⟩
    · rw [word?_of_head? hplus, hbind] at h
      exact ⟨[], cs, Or.inl rfl, rfl, h⟩
  · rintro ⟨sign, run, rfl | rfl, rfl, hrun⟩
    · refine (word?_of_head? fun hplus => ?_).trans ((hbind _).mpr hrun)
      -- A run of digits does not start with a plus sign.
      obtain ⟨zeros, rfl⟩ := digits?_eq_some_iff.mp hrun
      cases isDigit_of_mem_zeros (List.mem_of_mem_head? hplus)
    · exact (word?_plus _).trans ((hbind _).mpr hrun)

end Text

namespace OpinionId

/-- What a text is as an identifier: the number that it spells, or else itself without the blanks
around it. -/
structure ParsesTo (raw : String) (id : OpinionId) : Prop where
  number_iff : ∀ n : UInt64, id = .number n ↔ Text.Spells n.toNat raw.toList
  text_iff : ∀ s, id = .text s ↔
    s.toList = Text.trim raw.toList ∧ ∀ n, Text.Spells n raw.toList → UInt64.size ≤ n

/-- An identifier comes back from every form in which it is written. -/
structure ComesBack (id : OpinionId) : Prop where
  display : parse id.display = id
  json : Json.asId id.json = .ok id
  jsonText : Json.read id.json.pretty = .ok id.json
  /-- It is cited by a member of its name, whatever the value says of the citation. -/
  name : ∀ v : Json,
    Json.namedCitation? (id.display, v) = v.citationOpacity?.map fun opacity => (id, opacity)
  /-- No other identifier that was read has its text. -/
  unique : ∀ other : OpinionId, other.IsRead → other.display = id.display → other = id

/-! ### Spellings -/

theorem parse_eq_number_iff_word? {raw : String} {n : UInt64} :
    parse raw = .number n ↔ Text.word? (Text.trim raw.toList) = some n := by
  unfold parse
  dsimp only
  cases Text.word? (Text.trim raw.toList) <;> simp

/-- Every spelling of a number is the number, and nothing else is. -/
theorem parse_eq_number_iff {raw : String} {n : UInt64} :
    parse raw = .number n ↔ Text.Spells n.toNat raw.toList := by
  rw [parse_eq_number_iff_word?, Text.word?_eq_some_iff]
  constructor
  · rintro ⟨sign, run, hsign, htrim, hrun⟩
    obtain ⟨zeros, rfl⟩ := Text.digits?_eq_some_iff.mp hrun
    obtain ⟨before, after, hbefore, hafter, hraw⟩ := Text.exists_blanks raw.toList
    rw [hraw, htrim]
    exact .intro zeros hbefore hsign hafter
  · intro h
    generalize raw.toList = cs at h
    obtain @⟨before, sign, after, zeros, hbefore, hsign, hafter⟩ := h
    have hblank : ∀ c ∈ sign ++ (List.replicate zeros '0' ++ Text.digitsOf n.toNat),
        Text.isBlank c = false := by
      intro c hc
      rcases List.mem_append.mp hc with hc | hc
      · rcases hsign with rfl | rfl
        · cases hc
        · rw [List.mem_singleton.mp hc]
          rfl
      · exact Text.isBlank_of_isDigit (Text.isDigit_of_mem_zeros hc)
    refine ⟨sign, _, hsign, ?_, Text.digits?_eq_some_iff.mpr ⟨zeros, rfl⟩⟩
    rw [Text.trim_blanks_append hbefore
      (List.append_ne_nil_of_right_ne_nil _ Text.zeros_ne_nil) hblank,
      Text.trimEnd_of_forall_isBlank hafter, List.append_nil]

theorem parse_eq_text_iff {raw s : String} : parse raw = .text s ↔
    s.toList = Text.trim raw.toList ∧ ∀ n, Text.Spells n raw.toList → UInt64.size ≤ n := by
  constructor
  · intro h
    refine ⟨?_, fun n hn => ?_⟩
    · unfold parse at h
      dsimp only at h
      split at h
      · cases h
      · rw [← OpinionId.text.inj h, String.toList_ofList]
    · by_contra hlt
      have hn' : Text.Spells (UInt64.ofNatLT n (Nat.lt_of_not_le hlt)).toNat raw.toList := hn
      rw [parse_eq_number_iff.mpr hn'] at h
      cases h
  · rintro ⟨htrim, hlarge⟩
    cases hword : Text.word? (Text.trim raw.toList) with
    | some n =>
        have hspells := parse_eq_number_iff.mp (parse_eq_number_iff_word?.mpr hword)
        exact absurd n.toNat_lt (Nat.not_lt.mpr (hlarge _ hspells))
    | none =>
        rw [parse, hword, ← htrim, String.ofList_toList]

/-! ### Written forms -/

/-- A number is parsed from its digits. -/
theorem parse_display_number (n : UInt64) : parse (number n).display = .number n := by
  have hspells : Text.Spells n.toNat ([] ++ ([] ++ ([] ++ Text.digitsOf n.toNat) ++ [])) :=
    .intro 0 (by simp) (Or.inl rfl) (by simp)
  rw [parse_eq_number_iff, display, String.toList_ofList]
  simpa using hspells

theorem isRead_number (n : UInt64) : (number n).IsRead := Or.inl ⟨_, parse_display_number n⟩

/-- What was read is parsed from its own text. -/
theorem IsRead.parse_display {id : OpinionId} (h : id.IsRead) : parse id.display = id := by
  cases id with
  | number n => exact parse_display_number n
  | text s =>
      obtain ⟨raw, hraw⟩ := h.exists_parse
      exact parse_of_parse_eq_text hraw

theorem IsRead.comesBack {id : OpinionId} (h : id.IsRead) : id.ComesBack where
  display := h.parse_display
  json := h.asId_json
  jsonText := by
    rw [Json.read_pretty (readable_id id), canonical_json]
  name v := by
    rw [Json.namedCitation?, h.parse_display]
  unique other hother hsame := by
    rw [← hother.parse_display, hsame, h.parse_display]

/-- **Every identifier has one text of its own,** for every text that is parsed and every identifier
that was read. -/
theorem parse_oneText :
    (∀ raw, ParsesTo raw (parse raw)) ∧ ∀ id : OpinionId, id.IsRead → id.ComesBack :=
  ⟨fun _ => ⟨fun _ => parse_eq_number_iff, fun _ => parse_eq_text_iff⟩, fun _ h => h.comesBack⟩

/-- The largest number that fits, with a plus sign, a zero and blanks, and the next one, which is a
text. -/
theorem parse_oneText_largestNumber :
    parse "\u2003+018446744073709551615\n" = .number 18446744073709551615 ∧
      parse "18446744073709551616 " = .text "18446744073709551616" ∧
      (OpinionId.text "18446744073709551616").IsRead ∧
      (OpinionId.text "18446744073709551616").ComesBack := by
  have hnumber : parse "\u2003+018446744073709551615\n" = .number 18446744073709551615 := by cbv
  have htext : parse "18446744073709551616 " = .text "18446744073709551616" := by cbv
  have hread : (OpinionId.text "18446744073709551616").IsRead := Or.inl ⟨_, htext⟩
  exact ⟨hnumber, htext, hread, parse_oneText.2 _ hread⟩

end OpinionId

end Precedent
