import Precedent.Number.Root

/-!
# Precedent.Chart.Spread

**Spreading opinions over rows.** The first and the last opinion have the top row to themselves; the
others go through a pattern of rows in turn. The length of the turn is the side of the smallest
square that has room for all opinions. Up to eight it has a pattern of its own, beyond that the
pattern simply counts up, to one more than the length of the turn.

Any 64-bit number can stand for a number of opinions. Roots are taken in double precision, which
shows only in huge numbers, and rows are numbered by 32-bit words.
-/

namespace Precedent

/-- The row patterns of turns of one to eight opinions. -/
def rowPatterns : List (List Nat) :=
  [[1], [1, 2], [1, 2, 3], [1, 3, 2, 4], [2, 10, 5, 13, 16], [1, 2, 3, 4, 5, 6],
    [1, 2, 3, 4, 5, 6, 7], [1, 2, 3, 4, 5, 6, 7, 8]]

/-- The rows that opinions are spread over. -/
structure Spread where
  turn : Nat
  /-- The rows gone through; some of them may not come up in a turn. -/
  rows : List Nat
deriving DecidableEq, Repr

namespace Spread

open Number

/-- The length of a turn of a number of opinions. Below `2 ^ 52` double precision tells every root
from its whole part, so the side is exact; from there on the number and its root are rounded. -/
def turnOf (count : Nat) : Nat :=
  if count < Nat.pow 2 52 then squareSide count
  else (binary64.rootOf (binary64.ofInt count).ceiling).ceiling

/-- The spread of a number of opinions. -/
def ofCount (count : Nat) : Spread :=
  let turn := turnOf count
  let pattern := if turn = 0 then none else rowPatterns[turn - 1]?
  ⟨turn, pattern.getD (List.range' 1 ((turn + 1) % UInt32.size))⟩

/-- The row of the first and the last opinion: one above all others. -/
def topRow (s : Spread) : Nat := s.rows.foldl max 0 + 1

/-- The row of the opinion at a position, counted from 1, among `count` opinions. -/
def row (s : Spread) (position count : Nat) : Nat :=
  if position ≤ 1 || count ≤ position || s.turn = 0 then s.topRow
  else s.rows[(position - 2) % s.turn]?.getD s.topRow

end Spread

end Precedent
