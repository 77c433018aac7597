import Precedent.Number.Binary

/-!
# Precedent.Number.Root

**Square roots.** The whole part of a root is found binary digit by binary digit. A root in a
floating-point format is the whole part of the root of a larger square, with one more digit that
says whether anything is left over, rounded once.
-/

namespace Precedent.Number

/-- The largest natural number whose square is at most `n`, binary digit by binary digit. -/
def squareRoot (n : Nat) : Nat :=
  if n < 2 then n
  else
    let half := 2 * squareRoot (n / 4)
    if (half + 1) * (half + 1) ≤ n then half + 1 else half

/-- The least natural number whose square is at least `n`. -/
def squareSide (n : Nat) : Nat :=
  let r := squareRoot n
  if r * r = n then r else r + 1

/-- The number of the format nearest to the square root of a natural number. The whole part that is
taken has more bits than a significand, so it is enough to know whether the root is larger. -/
def Format.rootOf (f : Format) (n : Nat) : Binary :=
  let square := n * Nat.pow 4 (f.precision + 1)
  let r := squareRoot square
  let rest := if r * r = square then 0 else 1
  f.round false (2 * r + rest) (Nat.pow 2 (f.precision + 2))

/-- The least natural number that is not below a finite number; zero for all others. -/
def Binary.ceiling : Binary → Nat
  | .finite false m e =>
    let q := descale 2 m 1 (-e)
    (q.1 + q.2 - 1) / q.2
  | _ => 0

end Precedent.Number
