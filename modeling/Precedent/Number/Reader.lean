import Precedent.Number.Binary

/-!
# Precedent.Number.Reader

**Reading a number from a text of its own.** A number has a sign if it wants one, digits before a
point, after it or on both sides, and perhaps an exponent; infinity and the lack of a number are
written as words, in letters of any case. The nearest number of the format is the answer.
-/

namespace Precedent.Number

/-- The exponent that ends a number; a number may end without one. -/
def exponent? (cs : List Char) : Option Int :=
  let digits (ds : List Char) : Option Nat :=
    if !ds.isEmpty && ds.all Char.isDigit then some (Nat.ofDigitChars 10 ds 0) else none
  match cs with
  | [] => some 0
  | c :: rest =>
    if c == 'e' || c == 'E' then
      match rest with
      | '-' :: ds => (digits ds).map fun n => -(n : Int)
      | '+' :: ds => (digits ds).map fun n => (n : Int)
      | ds => (digits ds).map fun n => (n : Int)
    else none

/-- A number in digits, without its sign. -/
def Format.ofDigits? (f : Format) (negative : Bool) (cs : List Char) : Option Binary :=
  let whole := cs.takeWhile Char.isDigit
  let afterWhole := cs.dropWhile Char.isDigit
  let (fraction, rest) := match afterWhole with
    | '.' :: tail => (tail.takeWhile Char.isDigit, tail.dropWhile Char.isDigit)
    | _ => ([], afterWhole)
  let ds := whole ++ fraction
  if ds.isEmpty then none
  else (exponent? rest).map fun e =>
    f.ofDecimal negative (Nat.ofDigitChars 10 ds 0) (e - fraction.length)

/-- A number in digits or in words, without its sign. -/
def Format.ofUnsigned? (f : Format) (negative : Bool) (cs : List Char) : Option Binary :=
  match String.ofList (cs.map Char.toLower) with
  | "inf" | "infinity" => some (.infinite negative)
  | "nan" => some .nan
  | _ => f.ofDigits? negative cs

/-- The number that a text writes. -/
def Format.ofText? (f : Format) (text : String) : Option Binary :=
  match text.toList with
  | '-' :: cs => f.ofUnsigned? true cs
  | '+' :: cs => f.ofUnsigned? false cs
  | cs => f.ofUnsigned? false cs

end Precedent.Number
