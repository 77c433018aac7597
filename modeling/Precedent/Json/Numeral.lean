import Precedent.Json.Value
import Precedent.Text.Basic

/-!
# Precedent.Json.Numeral

**Numbers in JSON text.** A numeral has a whole part without needless zeros, an optional fraction
and an optional exponent. Without the last two it is an integer, if 64 bits hold it. All other
numerals are read in double precision by the short route: the digits are collected in a 64-bit
word as far as they fit, and the word is then multiplied or divided once by a power of ten (twice
or more for very small numbers), so the result may differ from the nearest double in its last bit.
-/

namespace Precedent.Number

/-! ### Integers of 64 bits -/

/-- Whether 64 bits without a sign hold an integer. -/
def fitsUnsigned (n : Int) : Bool := 0 ≤ n && n < 0x10000000000000000

/-- Whether 64 bits with a sign hold an integer. -/
def fitsSigned (n : Int) : Bool := -0x8000000000000000 ≤ n && n < 0x8000000000000000

end Precedent.Number

namespace Precedent.Json

/-! ### Numerals -/

open Number

/-- A numeral taken apart. -/
structure Numeral where
  negative : Bool
  whole : List Char
  /-- The digits after the point, if there is a point. -/
  fraction : Option (List Char)
  exponent : Option Int
deriving Repr

/-- Add digits to a word as long as it stays below `2 ^ 64`: the word and the digits left over. -/
def fillWord (word : Nat) : List Char → Nat × List Char
  | [] => (word, [])
  | c :: rest =>
    let next := word * 10 + (c.toNat - '0'.toNat)
    if next < UInt64.size then fillWord next rest else (word, c :: rest)

/-- The double nearest to `10 ^ k`. -/
def powerOfTen (k : Nat) : Binary := binary64.ofDecimal false 1 k

/-- Scale a double by `10 ^ e`, none when the result is too large. Powers of ten go up to 308; a
smaller exponent takes more than one division, a larger one is too large unless the number is
zero. -/
def scaleByTen (x : Binary) (e : Int) : Option Binary :=
  if 0 ≤ e then
    if e ≤ 308 then
      let y := binary64.multiply x (powerOfTen e.toNat)
      if y.isFinite then some y else none
    else if x.isZero then some x
    else none
  else if -308 ≤ e then some (binary64.divide x (powerOfTen (-e).toNat))
  else if x.isZero then some x
  else scaleByTen (binary64.divide x (powerOfTen 308)) (e + 308)
termination_by e.natAbs
decreasing_by omega

/-- The double that a numeral stands for, none when it is too large. -/
def Numeral.double? (n : Numeral) : Option Binary :=
  let whole := fillWord 0 n.whole
  let filled := fillWord whole.1 (n.fraction.getD [])
  let shift : Int := whole.2.length - ((n.fraction.getD []).length - filled.2.length : Nat)
  let x := binary64.ofInt filled.1
  (scaleByTen x (shift + n.exponent.getD 0)).map fun y => if n.negative then y.negate else y

/-- The integer that a numeral stands for: it has neither fraction nor exponent, it is not minus
zero, and 64 bits hold it. -/
def Numeral.integer? (n : Numeral) : Option Int :=
  if n.fraction.isSome || n.exponent.isSome then none
  else
    let m : Int := Nat.ofDigitChars 10 n.whole 0
    if n.negative then if 0 < m && fitsSigned (-m) then some (-m) else none
    else if fitsUnsigned m then some m
    else none

/-- The value of a numeral, none when it is too large for a double. -/
def Numeral.value? (n : Numeral) : Option Json :=
  match n.integer? with
  | some i => some (.int i)
  | none => n.double?.map .double

end Precedent.Json
