import Mathlib.Data.List.Basic
import Mathlib.Data.List.TakeWhile
import Mathlib.Tactic.IntervalCases
import Precedent.Opinion.Id

/-!
# Precedent.Proofs.Text.Written

**Written numbers and trimmed texts.** A number is written in digits only, without needless zeros in
front or filled up with them to a fixed width, and both forms are worth the number. A trimmed text
has no blanks at its ends, so it is trimmed no further; an identifier that has been parsed spells
itself.
-/

namespace Precedent

namespace Text

/-! ### Decimal digits -/

theorem toNat_of_isDigit {c : Char} (h : c.isDigit = true) : 48 ≤ c.toNat ∧ c.toNat ≤ 57 := by
  simpa [Char.isDigit, UInt32.le_iff_toNat_le] using h

theorem isDigit_of_mem_digitsOf {n : Nat} {c : Char} (h : c ∈ digitsOf n) : c.isDigit = true :=
  Nat.isDigit_of_mem_toDigits (by decide) (by decide) h

theorem digitsOf_ne_nil (n : Nat) : digitsOf n ≠ [] := Nat.toDigits_ne_nil

theorem ofDigitChars_digitsOf (n : Nat) : Nat.ofDigitChars 10 (digitsOf n) 0 = n :=
  Nat.ofDigitChars_ten_toDigits

/-- A positive number is not written with a zero in front. -/
theorem head?_digitsOf_ne_zero {n : Nat} (hn : 0 < n) : (digitsOf n).head? ≠ some '0' := by
  induction n using Nat.strongRecOn with
  | ind n ih =>
      rw [digitsOf]
      by_cases hlt : n < 10
      · rw [Nat.toDigits_of_lt_base hlt]
        interval_cases n <;> decide
      · have hle := Nat.le_of_not_lt hlt
        rw [Nat.toDigits_of_base_le (by decide) hle,
          List.head?_append_of_ne_nil _ Nat.toDigits_ne_nil]
        exact ih (n / 10) (by omega) (by omega)

theorem isDigit_of_mem_padded {width n : Nat} {c : Char} (h : c ∈ padded width n) :
    c.isDigit = true := by
  rcases List.mem_append.mp h with h | h
  · rw [List.eq_of_mem_replicate h]
    rfl
  · exact isDigit_of_mem_digitsOf h

theorem padded_ne_nil (width n : Nat) : padded width n ≠ [] :=
  List.append_ne_nil_of_right_ne_nil _ (digitsOf_ne_nil n)

theorem ofDigitChars_padded (width n : Nat) : Nat.ofDigitChars 10 (padded width n) 0 = n := by
  rw [padded, Nat.ofDigitChars_append, Nat.ofDigitChars_replicate_zero, Nat.mul_zero,
    ofDigitChars_digitsOf]

theorem length_padded {width n : Nat} (hwidth : 0 < width) (h : n < 10 ^ width) :
    (padded width n).length = width := by
  have hle : (digitsOf n).length ≤ width := (Nat.length_toDigits_le_iff (by decide) hwidth).mpr h
  rw [padded, List.length_append, List.length_replicate]
  omega

/-- A digit is written as itself. -/
theorem digitsOf_toNat_sub {c : Char} (h : c.isDigit = true) :
    digitsOf (c.toNat - '0'.toNat) = [c] := by
  obtain ⟨hle, hge⟩ := toNat_of_isDigit h
  have hlt : c.toNat - 48 < 10 := by omega
  have hchar : (c.toNat - 48).digitChar = c := by
    refine Char.toNat_inj.mp ?_
    rw [Nat.toNat_digitChar_of_lt_ten hlt]
    omega
  rw [digitsOf, show '0'.toNat = 48 from rfl, Nat.toDigits_of_lt_base hlt, hchar]

/-- Digits behind those of a positive number are further digits of one number. -/
theorem digitsOf_append {n : Nat} (hn : 0 < n) {ds : List Char}
    (hdigits : ∀ c ∈ ds, c.isDigit = true) :
    digitsOf n ++ ds = digitsOf (Nat.ofDigitChars 10 ds n) := by
  induction ds generalizing n with
  | nil => rw [List.append_nil, Nat.ofDigitChars_nil]
  | cons c ds ih =>
      obtain ⟨hc, hds⟩ := List.forall_mem_cons.mp hdigits
      obtain ⟨hle, hge⟩ := toNat_of_isDigit hc
      have hlt : c.toNat - '0'.toNat < 10 := by
        rw [show '0'.toNat = 48 from rfl]
        omega
      have hnext : digitsOf n ++ [c] = digitsOf (10 * n + (c.toNat - '0'.toNat)) := by
        rw [← digitsOf_toNat_sub hc]
        exact Nat.toDigits_append_toDigits (by decide) hn hlt
      rw [List.append_cons, hnext, ih (by omega) hds, Nat.ofDigitChars_cons]

/-- A run of digits is the number that it is worth, with zeros in front. -/
theorem exists_zeros_of_digits {ds : List Char} (hne : ds ≠ [])
    (hdigits : ∀ c ∈ ds, c.isDigit = true) :
    ∃ zeros, ds = List.replicate zeros '0' ++ digitsOf (Nat.ofDigitChars 10 ds 0) := by
  induction ds with
  | nil => exact absurd rfl hne
  | cons c ds ih =>
      obtain ⟨hc, hds⟩ := List.forall_mem_cons.mp hdigits
      have hvalue : Nat.ofDigitChars 10 (c :: ds) 0 =
          Nat.ofDigitChars 10 ds (c.toNat - '0'.toNat) := by
        rw [Nat.ofDigitChars_cons, Nat.mul_zero, Nat.zero_add]
      by_cases hzero : c.toNat - '0'.toNat = 0
      · obtain rfl : c = '0' := by
          have := toNat_of_isDigit hc
          refine Char.toNat_inj.mp ?_
          rw [show '0'.toNat = 48 from rfl] at hzero ⊢
          omega
        cases ds with
        | nil => exact ⟨0, rfl⟩
        | cons d ds =>
            obtain ⟨zeros, hzeros⟩ := ih (List.cons_ne_nil _ _) hds
            refine ⟨zeros + 1, ?_⟩
            rw [hvalue, hzero, List.replicate_succ, List.cons_append, ← hzeros]
      · refine ⟨0, ?_⟩
        rw [hvalue, ← digitsOf_append (Nat.pos_of_ne_zero hzero) hds, digitsOf_toNat_sub hc]
        rfl

/-! ### Blanks -/

theorem isBlank_of_isDigit {c : Char} (h : c.isDigit = true) : isBlank c = false := by
  have hc := toNat_of_isDigit h
  simp [isBlank]
  omega

theorem trimStart_of_head? {cs : List Char} (h : ∀ c, cs.head? = some c → isBlank c = false) :
    trimStart cs = cs := by
  cases cs with
  | nil => rfl
  | cons c cs => rw [trimStart, List.dropWhile_cons, h c rfl]; rfl

theorem head?_trimStart {cs : List Char} {c : Char} (h : (trimStart cs).head? = some c) :
    isBlank c = false := by
  have hnot := List.head?_dropWhile_not isBlank cs
  rw [show cs.dropWhile isBlank = trimStart cs from rfl, h] at hnot
  exact hnot

/-- Nothing is trimmed off a text without blanks. -/
theorem trim_of_forall_not_isBlank {cs : List Char} (h : ∀ c ∈ cs, isBlank c = false) :
    trim cs = cs := by
  rw [trim, trimStart_of_head? fun c hc => h c (List.mem_of_mem_head? hc),
    trimStart_of_head? fun c hc => h c (List.mem_reverse.mp (List.mem_of_mem_head? hc)),
    List.reverse_reverse]

/-- What has been trimmed is not trimmed again. -/
theorem trim_trim (cs : List Char) : trim (trim cs) = trim cs := by
  have hprefix : trim cs <+: trimStart cs := by
    rw [trim, ← List.reverse_suffix, List.reverse_reverse]
    exact List.dropWhile_suffix _
  have hfront : trimStart (trim cs) = trim cs := by
    refine trimStart_of_head? fun c hc => ?_
    have hhead : (trimStart cs).head? = some c := by
      obtain ⟨back, hback⟩ := hprefix
      rw [← hback, List.head?_append, hc]
      rfl
    exact head?_trimStart hhead
  have hback : trimStart (trim cs).reverse = (trim cs).reverse := by
    rw [trim, List.reverse_reverse]
    exact trimStart_of_head? fun c hc => head?_trimStart hc
  rw [trim, hfront, hback, List.reverse_reverse]

/-- The text without the blank characters behind it. -/
def trimEnd (cs : List Char) : List Char := (trimStart cs.reverse).reverse

theorem trim_eq_trimEnd (cs : List Char) : trim cs = trimEnd (trimStart cs) := rfl

theorem trimStart_of_forall_isBlank {cs : List Char} (h : ∀ c ∈ cs, isBlank c = true) :
    trimStart cs = [] := List.dropWhile_eq_nil_iff.mpr h

theorem trimEnd_of_forall_isBlank {cs : List Char} (h : ∀ c ∈ cs, isBlank c = true) :
    trimEnd cs = [] := by
  rw [trimEnd, trimStart_of_forall_isBlank fun c hc => h c (List.mem_reverse.mp hc)]
  rfl

/-- Only what stands behind a text without blanks is trimmed. -/
theorem trimEnd_append {cs : List Char} (h : ∀ c ∈ cs, isBlank c = false) (rest : List Char) :
    trimEnd (cs ++ rest) = cs ++ trimEnd rest := by
  have hcs : trimStart cs.reverse = cs.reverse :=
    trimStart_of_head? fun c hc => h c (List.mem_reverse.mp (List.mem_of_mem_head? hc))
  rw [trimEnd, List.reverse_append, trimStart, List.dropWhile_append]
  split
  next hempty =>
    have hrest : trimStart rest.reverse = [] := List.isEmpty_iff.mp hempty
    rw [← trimStart, hcs, List.reverse_reverse, trimEnd, hrest, List.reverse_nil, List.append_nil]
  next => rw [List.reverse_append, List.reverse_reverse, trimEnd, trimStart]

/-- Blanks in front of a text without blanks are trimmed, and blanks behind all that follows. -/
theorem trim_blanks_append {before cs : List Char} (hbefore : ∀ c ∈ before, isBlank c = true)
    (hne : cs ≠ []) (hcs : ∀ c ∈ cs, isBlank c = false) (rest : List Char) :
    trim (before ++ (cs ++ rest)) = cs ++ trimEnd rest := by
  have hstart : trimStart (before ++ (cs ++ rest)) = cs ++ rest := by
    rw [trimStart, List.dropWhile_append_of_pos hbefore]
    refine trimStart_of_head? fun c hc => hcs c ?_
    rw [List.head?_append_of_ne_nil _ hne] at hc
    exact List.mem_of_mem_head? hc
  rw [trim_eq_trimEnd, hstart, trimEnd_append hcs]

/-- A text is what is left of it by trimming, with blanks around. -/
theorem exists_blanks (cs : List Char) : ∃ before after, (∀ c ∈ before, isBlank c = true) ∧
    (∀ c ∈ after, isBlank c = true) ∧ cs = before ++ (trim cs ++ after) := by
  let back := (trimStart cs).reverse
  have hback : trimStart cs = trim cs ++ (back.takeWhile isBlank).reverse := by
    rw [trim, ← List.reverse_append]
    show _ = (back.takeWhile isBlank ++ back.dropWhile isBlank).reverse
    rw [List.takeWhile_append_dropWhile, List.reverse_reverse]
  refine ⟨cs.takeWhile isBlank, (back.takeWhile isBlank).reverse,
    fun c hc => List.mem_takeWhile_imp hc,
    fun c hc => List.mem_takeWhile_imp (List.mem_reverse.mp hc), ?_⟩
  rw [← hback, trimStart, List.takeWhile_append_dropWhile]

end Text

/-- The text of a parsed identifier is parsed to it. -/
theorem OpinionId.parse_of_parse_eq_text {raw s : String} (h : parse raw = .text s) :
    parse s = .text s := by
  unfold parse at h
  dsimp only at h
  cases hword : Text.word? (Text.trim raw.toList) with
  | some n =>
      rw [hword] at h
      cases h
  | none =>
      rw [hword] at h
      obtain rfl := OpinionId.text.inj h
      rw [parse, String.toList_ofList, Text.trim_trim, hword]

end Precedent
