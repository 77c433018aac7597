/-!
# Precedent.Text.Basic

**White space and decimal numerals.** A character is blank when Unicode gives it the property
`White_Space`; `trim` removes the blank characters at both ends of a text and keeps those in
between. Identifiers and filing dates are trimmed before they are read.

`digits?` reads a run of ASCII digits, `word?` a numeral that fits 64 bits and may carry one plus
sign in front. Leading zeros are allowed in both, so a number has many spellings; `digitsOf` writes
the shortest of them.
-/

namespace Precedent.Text

/-! ### White space -/

/-- Whether a character has the Unicode property `White_Space` (25 characters). -/
def isBlank (c : Char) : Bool :=
  let n := c.toNat
  (0x09 ≤ n && n ≤ 0x0D) || n == 0x20 || n == 0x85 || n == 0xA0 || n == 0x1680 ||
    (0x2000 ≤ n && n ≤ 0x200A) || n == 0x2028 || n == 0x2029 || n == 0x202F || n == 0x205F ||
    n == 0x3000

/-- The text without the blank characters in front. -/
def trimStart (cs : List Char) : List Char := cs.dropWhile isBlank

/-- The text without the blank characters at either end. -/
def trim (cs : List Char) : List Char := (trimStart (trimStart cs).reverse).reverse

/-- Every character that core counts as white space is blank. -/
theorem isBlank_of_isWhitespace {c : Char} (h : c.isWhitespace = true) : isBlank c = true := by
  simp only [Char.isWhitespace, Bool.or_eq_true, decide_eq_true_eq] at h
  rcases h with ((rfl | rfl) | rfl) | rfl <;> rfl

/-! ### Unsigned decimal numerals -/

/-- The number written by a nonempty run of ASCII digits. -/
def digits? (cs : List Char) : Option Nat :=
  if !cs.isEmpty && cs.all Char.isDigit then some (Nat.ofDigitChars 10 cs 0) else none

/-- The 64-bit number written by a run of digits with at most one plus sign in front. -/
def word? (cs : List Char) : Option UInt64 :=
  let run := match cs with
    | '+' :: rest => rest
    | _ => cs
  match digits? run with
  | none => none
  | some n => if h : n < UInt64.size then some (UInt64.ofNatLT n h) else none

/-- The decimal digits of a number, without leading zeros. -/
def digitsOf (n : Nat) : List Char := Nat.toDigits 10 n

/-- The decimal digits of a number, filled up with zeros to at least `width` places. -/
def padded (width n : Nat) : List Char :=
  let ds := digitsOf n
  List.replicate (width - ds.length) '0' ++ ds

/-- What a number is written as reads back as that number. -/
theorem digits?_digitsOf (n : Nat) : digits? (digitsOf n) = some n := by
  have hne : digitsOf n ≠ [] := Nat.toDigits_ne_nil
  have hall : (digitsOf n).all Char.isDigit = true := by
    rw [List.all_eq_true]
    intro c hc
    exact Nat.isDigit_of_mem_toDigits (by decide) (by decide) hc
  have hval : Nat.ofDigitChars 10 (digitsOf n) 0 = n := Nat.ofDigitChars_ten_toDigits
  simp [digits?, hne, hall, hval]

end Precedent.Text
