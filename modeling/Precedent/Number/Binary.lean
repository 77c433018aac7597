/-!
# Precedent.Number.Binary

**Binary floating-point numbers, computed exactly.** A finite number is a signed significand
times a power of two. A `Format` says how many bits a significand has and how far the exponent
goes; `Format.round` turns any quotient of natural numbers into the nearest number of the format,
an exact half going to the even significand. Everything else (conversion between formats, products
and quotients, decimal numerals) is one call of `Format.round` on an exact quotient.
-/

namespace Precedent.Number

/-- A binary floating-point number: `significand * 2 ^ exponent` with a sign, or none. -/
inductive Binary where
  /-- A finite number; the sign of zero counts. -/
  | finite (negative : Bool) (significand : Nat) (exponent : Int)
  /-- Beyond the largest finite number. -/
  | infinite (negative : Bool)
  /-- Not a number. -/
  | nan
deriving DecidableEq, Repr, Inhabited

/-- The sizes of a floating-point format. -/
structure Format where
  /-- Bits of a significand. -/
  precision : Nat
  /-- The least exponent, that of the subnormal numbers. -/
  bottom : Int
  /-- The greatest exponent of a finite number. -/
  top : Int
deriving DecidableEq, Repr

/-- Single precision: 32 bits. -/
def binary32 : Format := ⟨24, -149, 104⟩

/-- Double precision: 64 bits. -/
def binary64 : Format := ⟨53, -1074, 971⟩

/-! ### Rounding -/

/-- The natural number nearest to `num / den`; an exact half goes to the even neighbour. -/
def roundQuotient (num den : Nat) : Nat :=
  let low := num / den
  let rest := num % den
  if 2 * rest < den then low
  else if den < 2 * rest then low + 1
  else if low % 2 = 0 then low else low + 1

/-- The quotient `num / den` divided by `base ^ e`, again as a quotient. -/
def descale (base num den : Nat) (e : Int) : Nat × Nat :=
  if 0 ≤ e then (num, den * Nat.pow base e.toNat) else (num * Nat.pow base (-e).toNat, den)

/-- The number of the format nearest to `num / den`, an exact half going to the even significand.

The first guess at the exponent leaves a quotient of `precision` or `precision + 1` bits, so it is
right or one too small; below the normal numbers the exponent stays at `bottom`. -/
def Format.round (f : Format) (negative : Bool) (num den : Nat) : Binary :=
  if num = 0 then .finite negative 0 f.bottom
  else
    let guess : Int := (num.log2 : Int) - den.log2 - f.precision
    let trial := descale 2 num den guess
    let exact := if trial.1 / trial.2 < Nat.pow 2 f.precision then guess else guess + 1
    let e := max f.bottom exact
    let scaled := descale 2 num den e
    let m := roundQuotient scaled.1 scaled.2
    let carried := if m = Nat.pow 2 f.precision then (m / 2, e + 1) else (m, e)
    if f.top < carried.2 then .infinite negative else .finite negative carried.1 carried.2

/-- The number of the format nearest to `m * 2 ^ e`. -/
def Format.ofScaled (f : Format) (negative : Bool) (m : Nat) (e : Int) : Binary :=
  let q := descale 2 m 1 (-e)
  f.round negative q.1 q.2

/-- The number of the format nearest to an integer. -/
def Format.ofInt (f : Format) (n : Int) : Binary := f.round (n < 0) n.natAbs 1

/-- The number of the format nearest to a number of another format. -/
def Format.convert (f : Format) : Binary → Binary
  | .finite negative m e => f.ofScaled negative m e
  | .infinite negative => .infinite negative
  | .nan => .nan

/-! ### Decimal numerals -/

/-- The number of the format nearest to `m * 10 ^ e`. Exponents far outside every format are
answered without writing the power out. -/
def Format.ofDecimal (f : Format) (negative : Bool) (m : Nat) (e : Int) : Binary :=
  if m = 0 then .finite negative 0 f.bottom
  else if 400 < e then .infinite negative
  else if e + (Nat.toDigits 10 m).length < -400 then .finite negative 0 f.bottom
  else
    let q := descale 10 m 1 (-e)
    f.round negative q.1 q.2

/-! ### Operations on finite numbers -/

namespace Binary

/-- Whether the number is zero, with either sign. -/
def isZero : Binary → Bool
  | .finite _ 0 _ => true
  | _ => false

def isFinite : Binary → Bool
  | .finite _ _ _ => true
  | _ => false

/-- The number with the other sign. -/
def negate : Binary → Binary
  | .finite negative m e => .finite (!negative) m e
  | .infinite negative => .infinite (!negative)
  | .nan => .nan

end Binary

/-- The rounded product of two finite numbers. -/
def Format.multiply (f : Format) : Binary → Binary → Binary
  | .finite s m e, .finite s' m' e' => f.ofScaled (s != s') (m * m') (e + e')
  | _, _ => .nan

/-- The rounded quotient of two finite numbers, the second not zero. -/
def Format.divide (f : Format) : Binary → Binary → Binary
  | .finite s m e, .finite s' m' e' =>
    let q := descale 2 m m' (e' - e)
    f.round (s != s') q.1 q.2
  | _, _ => .nan

end Precedent.Number
