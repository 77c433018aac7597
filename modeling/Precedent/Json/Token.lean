import Precedent.Json.Numeral

/-!
# Precedent.Json.Token

**The tokens of a JSON text.** `tokens` cuts a text into brackets, separators and scalars, passing
over white space. A place that is no token ends the list with a `broken` token, which remembers
whether the text is malformed there or merely stops too early, so a reader of tokens reports the
first fault of the text without looking at characters.

A scalar is *faithful* unless it is a number too large for a double (its value is infinite then) or
a text with half of a surrogate pair (its value has a replacement character there). Such scalars
are well-formed, but only a lenient reader accepts them.
-/

namespace Precedent.Json

open Number

/-- Why a text is not JSON. -/
inductive Fault where
  /-- Some character cannot stand where it stands. -/
  | malformed
  /-- The text ends too early. -/
  | unfinished
deriving DecidableEq, Repr

/-- A token of a JSON text. -/
inductive Token where
  | listOpen
  | listClose
  | objectOpen
  | objectClose
  | comma
  | colon
  /-- A literal, number or text, and whether the text stands for exactly this value. -/
  | scalar (value : Json) (faithful : Bool)
  /-- No token: the fault, and whether a text (rather than a literal or number) is broken. -/
  | broken (inText : Bool) (fault : Fault)
deriving Repr

/-- Whether a character may stand between tokens. -/
def isSpace (c : Char) : Bool := c == ' ' || c == '\n' || c == '\t' || c == '\r'

/-! ### Literals and numbers -/

def literal (value : Json) : List Char → List Char → Token × List Char
  | [], cs => (.scalar value true, cs)
  | _ :: _, [] => (.broken false .unfinished, [])
  | e :: es, c :: cs =>
    if c == e then literal value es cs else (.broken false .malformed, [])

/-- What is wrong when a digit does not come. -/
def digitFault (cs : List Char) : Fault := if cs.isEmpty then .unfinished else .malformed

/-- The digits in front of a text and what follows them. -/
def spanDigits (cs : List Char) : List Char × List Char :=
  (cs.takeWhile Char.isDigit, cs.dropWhile Char.isDigit)

/-- The whole part of a numeral: one zero, or digits that do not start with zero. -/
def wholePart (cs : List Char) : Except Fault (List Char × List Char) :=
  match spanDigits cs with
  | ([], rest) => .error (digitFault rest)
  | ('0' :: _ :: _, _) => .error .malformed
  | (ds, rest) => .ok (ds, rest)

/-- The fraction of a numeral, if a point follows. -/
def fractionPart (cs : List Char) : Except Fault (Option (List Char) × List Char) :=
  match cs with
  | '.' :: rest =>
    match spanDigits rest with
    | ([], rest) => .error (digitFault rest)
    | (ds, rest) => .ok (some ds, rest)
  | _ => .ok (none, cs)

def exponentDigits (negative : Bool) (cs : List Char) :
    Except Fault (Option Int × List Char) :=
  match spanDigits cs with
  | ([], rest) => .error (digitFault rest)
  | (ds, rest) =>
    let e : Int := Nat.ofDigitChars 10 ds 0
    .ok (some (if negative then -e else e), rest)

/-- The exponent of a numeral, if the letter for it follows. -/
def exponentPart (cs : List Char) : Except Fault (Option Int × List Char) :=
  match cs with
  | c :: rest =>
    if c == 'e' || c == 'E' then
      match rest with
      | '-' :: rest => exponentDigits true rest
      | '+' :: rest => exponentDigits false rest
      | _ => exponentDigits false rest
    else .ok (none, cs)
  | [] => .ok (none, [])

/-- A numeral after its sign. -/
def numeral (negative : Bool) (cs : List Char) : Except Fault (Numeral × List Char) := do
  let whole ← wholePart cs
  let fraction ← fractionPart whole.2
  let exponent ← exponentPart fraction.2
  pure (⟨negative, whole.1, fraction.1, exponent.1⟩, exponent.2)

/-- A number token. A number too large for a double is not faithful. -/
def numberToken (negative : Bool) (cs : List Char) : Token × List Char :=
  match numeral negative cs with
  | .error fault => (.broken false fault, [])
  | .ok (n, rest) =>
    match n.value? with
    | some v => (.scalar v true, rest)
    | none => (.scalar (.double (.infinite negative)) false, rest)

/-! ### Texts -/

/-- The value of a hexadecimal digit. -/
def hexDigit? (c : Char) : Option Nat :=
  if c.isDigit then some (c.toNat - '0'.toNat)
  else if 'a' ≤ c && c ≤ 'f' then some (c.toNat - 'a'.toNat + 10)
  else if 'A' ≤ c && c ≤ 'F' then some (c.toNat - 'A'.toNat + 10)
  else none

/-- The 16-bit unit spelled by four hexadecimal digits. -/
def unit? (a b c d : Char) : Option Nat := do
  let a ← hexDigit? a
  let b ← hexDigit? b
  let c ← hexDigit? c
  let d ← hexDigit? d
  pure (((a * 16 + b) * 16 + c) * 16 + d)

/-- The character that a one-letter escape stands for. -/
def escaped? (c : Char) : Option Char :=
  match c with
  | '"' => some '"'
  | '\\' => some '\\'
  | '/' => some '/'
  | 'b' => some '\x08'
  | 'f' => some '\x0c'
  | 'n' => some '\n'
  | 'r' => some '\r'
  | 't' => some '\t'
  | _ => none

/-- What has been read of a text: its characters backwards, the first half of a surrogate pair that
still waits for the second, and whether no half of a pair stood alone so far. -/
structure Gathered where
  chars : List Char
  waiting : Option Nat
  faithful : Bool
deriving Repr

namespace Gathered

/-- Nothing has been read yet. -/
def start : Gathered := ⟨[], none, true⟩

/-- A waiting half of a pair has stayed alone. -/
def settle (p : Gathered) : Gathered :=
  match p.waiting with
  | none => p
  | some _ => ⟨'\ufffd' :: p.chars, none, false⟩

def push (p : Gathered) (c : Char) : Gathered :=
  let p := p.settle
  { p with chars := c :: p.chars }

/-- A 16-bit unit follows: a character of its own, or a half of a surrogate pair. -/
def pushUnit (p : Gathered) (n : Nat) : Gathered :=
  if 0xDC00 ≤ n && n ≤ 0xDFFF then
    match p.waiting with
    | some high =>
      { p with
        chars := Char.ofNat (0x10000 + (high - 0xD800) * 0x400 + (n - 0xDC00)) :: p.chars
        waiting := none }
    | none => ⟨'\ufffd' :: p.chars, none, false⟩
  else if 0xD800 ≤ n && n ≤ 0xDBFF then { p.settle with waiting := some n }
  else p.push (Char.ofNat n)

/-- The text ends here. -/
def finish (p : Gathered) : Token :=
  let p := p.settle
  .scalar (.text (String.ofList p.chars.reverse)) p.faithful

/-- The text is broken here; a half of a pair that stood alone before makes it malformed. -/
def broken (p : Gathered) (fault : Fault) : Token :=
  .broken true (if p.faithful then fault else .malformed)

end Gathered

/-- Whether fewer than four bytes are left of a text. -/
def fewerThanFourBytes (cs : List Char) : Bool :=
  (String.ofList (cs.take 4)).utf8ByteSize < 4

/-- The rest of a text after its opening quote. -/
def textToken (p : Gathered) : List Char → Token × List Char
  | [] => (p.broken .unfinished, [])
  | '"' :: rest => (p.finish, rest)
  | '\\' :: 'u' :: a :: b :: c :: d :: rest =>
    match unit? a b c d with
    | some n => textToken (p.pushUnit n) rest
    | none => (p.broken .malformed, [])
  | '\\' :: 'u' :: rest =>
    (p.broken (if fewerThanFourBytes rest then .unfinished else .malformed), [])
  | '\\' :: c :: rest =>
    match escaped? c with
    | some e => textToken (p.push e) rest
    | none => (p.broken .malformed, [])
  | ['\\'] => (p.broken .unfinished, [])
  | c :: rest =>
    if c.toNat < 0x20 then (p.broken .malformed, []) else textToken (p.push c) rest

/-! ### The token list -/

/-- The token that starts with the given character, and what follows it. -/
def nextToken (c : Char) (cs : List Char) : Token × List Char :=
  match c with
  | '[' => (.listOpen, cs)
  | ']' => (.listClose, cs)
  | '{' => (.objectOpen, cs)
  | '}' => (.objectClose, cs)
  | ',' => (.comma, cs)
  | ':' => (.colon, cs)
  | '"' => textToken .start cs
  | 'n' => literal .null ['u', 'l', 'l'] cs
  | 't' => literal (.bool true) ['r', 'u', 'e'] cs
  | 'f' => literal (.bool false) ['a', 'l', 's', 'e'] cs
  | '-' => numberToken true cs
  | c => if c.isDigit then numberToken false (c :: cs) else (.broken false .malformed, [])

/-- The tokens of a text. A token always takes at least its first character; the last branch is
there for totality only. -/
def tokens (cs : List Char) : List Token :=
  match _cut : cs.dropWhile isSpace with
  | [] => []
  | c :: rest =>
    let next := nextToken c rest
    if _shorter : next.2.length ≤ rest.length then next.1 :: tokens next.2 else [next.1]
termination_by cs.length
decreasing_by
  have kept := (List.dropWhile_sublist isSpace : (cs.dropWhile isSpace).Sublist cs).length_le
  rw [_cut, List.length_cons] at kept
  exact Nat.lt_of_le_of_lt _shorter kept

end Precedent.Json
