import Precedent.Number.Binary
import Precedent.Text.Basic

/-!
# Precedent.Number.Shortest

**The fewest decimal digits that read back.** For a positive number of a format, `Format.shortest`
looks at coarser and finer decimal grids from the top: on each grid only the two neighbours of the
number can be nearest to it, so the first grid on which one of them rounds to the number gives the
fewest digits, and of two such neighbours the nearer one is taken (an exact tie goes to the even
digit). `Style.text?` then lays the digits out: positional notation in a range of magnitudes, with a
fraction always written, and scientific notation with a signed exponent outside it.
-/

namespace Precedent.Number

/-- Look for a multiple of `10 ^ k` that rounds to `m * 2 ^ e`, then on finer grids. The number of
grids to try is given first; on the last one the neighbour below is the answer. -/
def Format.searchGrids (f : Format) (m : Nat) (e : Int) : Nat → Int → Nat × Int
  | 0, k => (m, k)
  | tries + 1, k =>
    let binary := descale 2 m 1 (-e)
    let onGrid := descale 10 binary.1 binary.2 k
    let below := onGrid.1 / onGrid.2
    let nearest := roundQuotient onGrid.1 onGrid.2
    let other := if nearest = below then below + 1 else below
    let readsBack (d : Nat) : Bool :=
      d != 0 && f.ofDecimal false d k == f.ofScaled false m e
    if readsBack nearest then (nearest, k)
    else if readsBack other then (other, k)
    else f.searchGrids m e tries (k - 1)

/-- The decimal `d * 10 ^ k` with the fewest digits that rounds to `m * 2 ^ e`, where `0 < m`.
The search starts above the number: `2 ^ 10 > 10 ^ 3` bounds the first grid. -/
def Format.shortest (f : Format) (m : Nat) (e : Int) : Nat × Int :=
  let bits : Int := e + m.log2 + 1
  f.searchGrids m e (f.precision + 3) (bits * 30103 / 100000 + 1)

/-- How decimal digits are laid out. -/
structure Style where
  /-- Positional notation starts at `10 ^ lowest`. -/
  lowest : Int
  /-- Positional notation ends below `10 ^ highest`. -/
  highest : Int
deriving Repr

/-- Digits in positional notation, `point` of them (perhaps less than none) before the point. -/
def positional (ds : List Char) (point : Int) : List Char :=
  if point ≤ 0 then ['0', '.'] ++ List.replicate (-point).toNat '0' ++ ds
  else if (ds.length : Int) ≤ point then
    ds ++ List.replicate (point - ds.length).toNat '0' ++ ['.', '0']
  else ds.take point.toNat ++ '.' :: ds.drop point.toNat

/-- Digits in scientific notation, with a sign in front of every exponent. -/
def scientific (ds : List Char) (exponent : Int) : List Char :=
  let mantissa := match ds with
    | d :: rest => if rest.isEmpty then [d] else d :: '.' :: rest
    | [] => []
  mantissa ++ 'e' :: (if exponent < 0 then '-' else '+') :: Text.digitsOf exponent.natAbs

/-- The text of a number, or none when it is not finite. -/
def Style.text? (s : Style) (f : Format) : Binary → Option (List Char)
  | .finite negative m e =>
    let unsigned :=
      if m = 0 then ['0', '.', '0']
      else
        let d := f.shortest m e
        let written := Text.digitsOf d.1
        let ds := (written.reverse.dropWhile (· == '0')).reverse
        let exponent := d.2 + written.length - 1
        if s.lowest ≤ exponent && exponent < s.highest then positional ds (exponent + 1)
        else scientific ds exponent
    some (if negative then '-' :: unsigned else unsigned)
  | _ => none

/-- Single-precision numbers are positional from a millionth up to ten million millions. -/
def singleStyle : Style := ⟨-6, 13⟩

/-- Double-precision numbers are positional from a hundred-thousandth up to `10 ^ 16`. -/
def doubleStyle : Style := ⟨-5, 16⟩

end Precedent.Number
