import Precedent.Json.Token
import Precedent.Json.Writer
import Precedent.Proofs.Text.Written

/-!
# Precedent.Proofs.Json.Tokens

**What is written is cut back into its tokens.** A text is gathered character by character, and each
character is written so that it is gathered as itself. A number has no mark at its end: it is read
as far as its digits go, so it has to be followed by something that cannot continue it
(`EndsNumber`), which is what a comma, a line break or the end of the text is there for. Line breaks
and indentation are passed over.
-/

namespace Precedent.Json

open Number Text

/-! ### Numbers -/

/-- What can follow a number without continuing it. -/
def EndsNumber (rest : List Char) : Prop :=
  ∀ c, rest.head? = some c → c.isDigit = false ∧ c ≠ '.' ∧ c ≠ 'e' ∧ c ≠ 'E'

theorem endsNumber_nil : EndsNumber [] := by
  intro c hc
  cases hc

theorem endsNumber_comma (rest : List Char) : EndsNumber (',' :: rest) := by
  rintro c ⟨⟩
  decide

theorem endsNumber_newLine (depth : Nat) (rest : List Char) :
    EndsNumber (newLine depth ++ rest) := by
  rintro c ⟨⟩
  decide

/-- What can follow digits without continuing them. -/
def EndsDigits (rest : List Char) : Prop := ∀ c, rest.head? = some c → c.isDigit = false

theorem EndsNumber.endsDigits {rest : List Char} (h : EndsNumber rest) : EndsDigits rest :=
  fun c hc => (h c hc).1

theorem endsDigits_cons {c : Char} (hc : c.isDigit = false) (rest : List Char) :
    EndsDigits (c :: rest) := by
  rintro c' ⟨⟩
  exact hc

section Digits

variable {ds rest : List Char} (hds : ∀ c ∈ ds, c.isDigit = true) (hrest : EndsDigits rest)
include hds hrest

/-- Digits are read to their end. -/
theorem spanDigits_append : spanDigits (ds ++ rest) = (ds, rest) := by
  rw [spanDigits, List.takeWhile_append_of_pos hds, List.dropWhile_append_of_pos hds]
  cases rest with
  | nil => simp
  | cons c cs =>
      rw [List.takeWhile_cons, List.dropWhile_cons, hrest c rfl]
      simp

theorem wholePart_append (hne : ds ≠ []) (hzero : ds.head? = some '0' → ds = ['0']) :
    wholePart (ds ++ rest) = .ok (ds, rest) := by
  rw [wholePart, spanDigits_append hds hrest]
  split
  · next heq => exact absurd (Prod.mk.inj heq).1 hne
  · next heq =>
      have hdigits := (Prod.mk.inj heq).1
      rw [hdigits] at hzero
      cases hzero rfl
  · next heq =>
      obtain ⟨rfl, rfl⟩ := Prod.mk.inj heq
      rfl

end Digits

section Numbers

variable {rest : List Char} (hrest : EndsNumber rest)
include hrest

theorem wholePart_digitsOf (n : Nat) :
    wholePart (digitsOf n ++ rest) = .ok (digitsOf n, rest) := by
  refine wholePart_append (fun _ => isDigit_of_mem_digitsOf) hrest.endsDigits (digitsOf_ne_nil n)
    fun hzero => ?_
  rcases Nat.eq_zero_or_pos n with rfl | hpos
  · rfl
  · exact absurd hzero (head?_digitsOf_ne_zero hpos)

theorem fractionPart_of_endsNumber : fractionPart rest = .ok (none, rest) := by
  unfold fractionPart
  split
  · exact absurd rfl (hrest _ rfl).2.1
  · rfl

theorem exponentPart_of_endsNumber : exponentPart rest = .ok (none, rest) := by
  unfold exponentPart
  split
  · obtain ⟨-, -, he, hE⟩ := hrest _ rfl
    rw [if_neg (by simp [he, hE])]
  · rfl

theorem numeral_digitsOf (negative : Bool) (n : Nat) :
    numeral negative (digitsOf n ++ rest) =
      .ok (⟨negative, digitsOf n, none, none⟩, rest) := by
  simp only [numeral, wholePart_digitsOf hrest, fractionPart_of_endsNumber hrest,
    exponentPart_of_endsNumber hrest, bind, Except.bind, pure, Except.pure]

/-- A whole number that 64 bits hold is read as itself. -/
theorem numberToken_natAbs {n : Int} (hn : fitsUnsigned n = true ∨ fitsSigned n = true) :
    numberToken (decide (n < 0)) (digitsOf n.natAbs ++ rest) =
      (.scalar (.int n) true, rest) := by
  have hint : Numeral.integer? ⟨decide (n < 0), digitsOf n.natAbs, none, none⟩ = some n := by
    simp only [fitsUnsigned, fitsSigned, Bool.and_eq_true, decide_eq_true_eq] at hn
    unfold Numeral.integer?
    simp only [Option.isSome_none, Bool.or_self, Bool.false_eq_true, if_false,
      ofDigitChars_digitsOf, decide_eq_true_eq]
    by_cases hneg : n < 0
    · have habs : (n.natAbs : Int) = -n := by omega
      rw [if_pos hneg, habs, neg_neg, if_pos]
      simp only [fitsSigned, Bool.and_eq_true, decide_eq_true_eq]
      omega
    · have habs : (n.natAbs : Int) = n := by omega
      rw [if_neg hneg, habs, if_pos]
      simp only [fitsUnsigned, Bool.and_eq_true, decide_eq_true_eq]
      omega
  rw [numberToken, numeral_digitsOf hrest]
  dsimp only
  rw [Numeral.value?, hint]

end Numbers

/-! ### Texts -/

theorem hexDigit?_digitChar {n : Nat} (h : n < 16) : hexDigit? (Nat.digitChar n) = some n := by
  interval_cases n <;> rfl

theorem unit?_escapedControl {c : Char} (h : c.toNat < 0x20) :
    unit? '0' '0' (Nat.digitChar (c.toNat / 16)) (Nat.digitChar (c.toNat % 16)) =
      some c.toNat := by
  have hzero : hexDigit? '0' = some 0 := rfl
  have hhigh := hexDigit?_digitChar (n := c.toNat / 16) (by omega)
  have hlow := hexDigit?_digitChar (n := c.toNat % 16) (by omega)
  simp only [unit?, hzero, hhigh, hlow, Option.bind_eq_bind, Option.bind_some, Option.pure_def,
    Option.some.injEq]
  omega

/-- A control character is no half of a surrogate pair. -/
theorem pushUnit_control (chars : List Char) {c : Char} (h : c.toNat < 0x20) :
    Gathered.pushUnit ⟨chars, none, true⟩ c.toNat = ⟨c :: chars, none, true⟩ := by
  unfold Gathered.pushUnit
  rw [if_neg (by simp; omega), if_neg (by simp; omega), Char.ofNat_toNat]
  rfl

theorem textToken_plain (p : Gathered) {c : Char} (hquote : c ≠ '"') (hslash : c ≠ '\\')
    (hprinted : ¬ c.toNat < 0x20) (rest : List Char) :
    textToken p (c :: rest) = textToken (p.push c) rest := by
  rw [textToken, if_neg hprinted]
  all_goals
    intros
    simp_all

/-- A character is gathered as itself, in whichever way it is written. -/
theorem textToken_writtenChar (chars : List Char) (c : Char) (rest : List Char) :
    textToken ⟨chars, none, true⟩ (writtenChar c ++ rest) =
      textToken ⟨c :: chars, none, true⟩ rest := by
  unfold writtenChar
  split
  · rfl
  · rfl
  · rfl
  · rfl
  · rfl
  · rfl
  · rfl
  · next hquote hslash _ _ _ _ _ =>
      split
      · next hcontrol =>
          show textToken _ ('\\' :: 'u' :: '0' :: '0' :: _ :: _ :: rest) = _
          rw [textToken, unit?_escapedControl hcontrol]
          dsimp only
          rw [pushUnit_control chars hcontrol]
      · next hprinted => exact textToken_plain _ hquote hslash hprinted rest

/-- A text is gathered up to its closing quote. -/
theorem textToken_flatMap (chars cs rest : List Char) :
    textToken ⟨chars, none, true⟩ (cs.flatMap writtenChar ++ '"' :: rest) =
      (.scalar (.text (String.ofList (chars.reverse ++ cs))) true, rest) := by
  induction cs generalizing chars with
  | nil =>
      rw [List.flatMap_nil, List.nil_append, textToken, List.append_nil]
      rfl
  | cons c cs ih =>
      rw [List.flatMap_cons, List.append_assoc, textToken_writtenChar, ih, List.reverse_cons,
        List.append_assoc, List.singleton_append]

/-! ### Cutting off one token -/

/-- The token list, without the proof that it ends. -/
theorem tokens_eq (cs : List Char) : tokens cs =
    match cs.dropWhile isSpace with
    | [] => []
    | c :: rest =>
      if (nextToken c rest).2.length ≤ rest.length then
        (nextToken c rest).1 :: tokens (nextToken c rest).2
      else [(nextToken c rest).1] := by
  rw [tokens]
  split
  · next hcut => rw [hcut]
  · next hcut =>
      rw [hcut]
      rfl

@[simp] theorem tokens_nil : tokens [] = [] := by rw [tokens_eq]; rfl

/-- A blank between tokens is passed over. -/
theorem tokens_of_isSpace {c : Char} (hc : isSpace c = true) (cs : List Char) :
    tokens (c :: cs) = tokens cs := by
  rw [tokens_eq, List.dropWhile_cons, if_pos hc, ← tokens_eq]

theorem tokens_of_nextToken {c : Char} {cs rest : List Char} {t : Token} (hc : isSpace c = false)
    (h : nextToken c cs = (t, rest)) (hle : rest.length ≤ cs.length) :
    tokens (c :: cs) = t :: tokens rest := by
  rw [tokens_eq, List.dropWhile_cons, hc]
  simp [h, hle]

theorem tokens_replicate_space (n : Nat) (cs : List Char) :
    tokens (List.replicate n ' ' ++ cs) = tokens cs := by
  induction n with
  | zero => rfl
  | succ n ih => rw [List.replicate_succ, List.cons_append, tokens_of_isSpace rfl, ih]

@[simp] theorem tokens_newLine (depth : Nat) (cs : List Char) :
    tokens (newLine depth ++ cs) = tokens cs := by
  rw [newLine, List.cons_append, tokens_of_isSpace rfl, tokens_replicate_space]

@[simp] theorem tokens_writtenText (s : String) (cs : List Char) :
    tokens (writtenText s ++ cs) = .scalar (.text s) true :: tokens cs := by
  have hnext : nextToken '"' (s.toList.flatMap writtenChar ++ '"' :: cs) =
      (.scalar (.text s) true, cs) := by
    refine (textToken_flatMap [] s.toList cs).trans ?_
    simp
  rw [writtenText, List.append_assoc, List.cons_append, List.singleton_append]
  exact tokens_of_nextToken rfl hnext (by simp; omega)

theorem nextToken_of_isDigit {c : Char} (hc : c.isDigit = true) (cs : List Char) :
    nextToken c cs = numberToken false (c :: cs) := by
  unfold nextToken
  split
  all_goals first
    | exact absurd hc (by decide)
    | exact if_pos hc

theorem isSpace_of_isDigit {c : Char} (hc : c.isDigit = true) : isSpace c = false := by
  rw [← Bool.not_eq_true]
  intro hspace
  simp only [isSpace, Bool.or_eq_true, beq_iff_eq] at hspace
  rcases hspace with ((rfl | rfl) | rfl) | rfl <;> exact absurd hc (by decide)

theorem tokens_writtenInt {n : Int} (hn : fitsUnsigned n = true ∨ fitsSigned n = true)
    {rest : List Char} (hrest : EndsNumber rest) :
    tokens (writtenInt n ++ rest) = .scalar (.int n) true :: tokens rest := by
  have hnumber := numberToken_natAbs hrest hn
  unfold writtenInt
  by_cases hneg : n < 0
  · rw [if_pos hneg, List.cons_append]
    rw [decide_eq_true hneg] at hnumber
    exact tokens_of_nextToken rfl hnumber (by simp)
  · rw [if_neg hneg]
    rw [decide_eq_false hneg] at hnumber
    cases hdigits : digitsOf n.natAbs with
    | nil => exact absurd hdigits (digitsOf_ne_nil _)
    | cons c cs =>
        have hc : c.isDigit = true := isDigit_of_mem_digitsOf (hdigits ▸ List.mem_cons_self ..)
        rw [hdigits] at hnumber
        refine tokens_of_nextToken (isSpace_of_isDigit hc)
          ((nextToken_of_isDigit hc _).trans hnumber) ?_
        simp

end Precedent.Json
