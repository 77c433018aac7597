import Precedent.Calendar.Date
import Precedent.Text.Basic

/-!
# Precedent.Calendar.Reader

**Reading filing dates.** A date is written as year, month and day with hyphens between them, or it
is the date part of a timestamp. `parseDate` tries three readings of the trimmed text in turn: the
whole text as a date; the whole text as a timestamp with an offset, whose local date counts; the
part in front of the first `T` as a date. Blanks may stand before each number of a date; the year
has up to four digits, or any number of them after a sign.
-/

namespace Precedent

/-! ### Year, month and day -/

/-- A number of one to `most` digits in front of a text, blanks before it skipped, and the rest of
the text. -/
def leadingNumber (most : Nat) (cs : List Char) : Option (Nat × List Char) :=
  let cs := Text.trimStart cs
  let ds := (cs.take most).takeWhile Char.isDigit
  if ds.isEmpty then none else some (Nat.ofDigitChars 10 ds 0, cs.drop ds.length)

/-- A year in front of a text: a sign and any number of digits, or at most four digits. -/
def leadingYear (cs : List Char) : Option (Int × List Char) :=
  match Text.trimStart cs with
  | '-' :: rest =>
    let ds := rest.takeWhile Char.isDigit
    if ds.isEmpty then none
    else some (-(Nat.ofDigitChars 10 ds 0 : Nat), rest.drop ds.length)
  | '+' :: rest =>
    let ds := rest.takeWhile Char.isDigit
    if ds.isEmpty then none
    else some ((Nat.ofDigitChars 10 ds 0 : Nat), rest.drop ds.length)
  | cs => (leadingNumber 4 cs).map fun n => ((n.1 : Int), n.2)

/-- The rest of a text after a character that has to stand in front. -/
def afterChar (c : Char) : List Char → Option (List Char)
  | [] => none
  | c' :: rest => if c' == c then some rest else none

/-- A text that is nothing but a date. -/
def plainDate (cs : List Char) : Option Date := do
  let (year, rest) ← leadingYear cs
  let rest ← afterChar '-' rest
  let (month, rest) ← leadingNumber 2 rest
  let rest ← afterChar '-' rest
  let (day, rest) ← leadingNumber 2 rest
  if rest.isEmpty then Date.of? year month day else none

/-! ### Timestamps -/

/-- A number of exactly `width` digits in front of a text. -/
def fixedNumber (width : Nat) (cs : List Char) : Option (Nat × List Char) :=
  let ds := cs.take width
  if ds.length = width && ds.all Char.isDigit then
    some (Nat.ofDigitChars 10 ds 0, cs.drop width)
  else none

/-- The rest of a text after a fraction of a second, if there is one. -/
def afterFraction (cs : List Char) : Option (List Char) :=
  match cs with
  | '.' :: rest =>
    let ds := rest.takeWhile Char.isDigit
    if ds.isEmpty then none else some (rest.drop ds.length)
  | _ => some cs

/-- Whether a text is the offset of a timestamp: the letter for none, or hours and minutes with a
sign, less than a day in all. The minus sign may be the typographic one. -/
def isOffset (cs : List Char) : Bool :=
  match cs with
  | ['Z'] | ['z'] => true
  | sign :: rest =>
    (sign == '+' || sign == '-' || sign == '\u2212') &&
      match fixedNumber 2 rest with
      | some (hours, ':' :: rest) =>
        match fixedNumber 2 rest with
        | some (minutes, []) => minutes ≤ 59 && hours ≤ 23
        | _ => false
      | _ => false
  | [] => false

/-- Whether a text is a time of day with an offset. A leap second may be written. -/
def isTimeWithOffset (cs : List Char) : Bool :=
  let parts : Option (List Char) := do
    let (hour, rest) ← fixedNumber 2 cs
    let rest ← afterChar ':' rest
    let (minute, rest) ← fixedNumber 2 rest
    let rest ← afterChar ':' rest
    let (second, rest) ← fixedNumber 2 rest
    if hour ≤ 23 && minute ≤ 59 && second ≤ 60 then afterFraction rest else none
  match parts with
  | some rest => isOffset rest
  | none => false

/-- The local date of a timestamp with an offset. -/
def timestampDate (cs : List Char) : Option Date := do
  let (year, rest) ← fixedNumber 4 cs
  let rest ← afterChar '-' rest
  let (month, rest) ← fixedNumber 2 rest
  let rest ← afterChar '-' rest
  let (day, rest) ← fixedNumber 2 rest
  match rest with
  | c :: rest =>
    if (c == 'T' || c == 't' || c == ' ') && isTimeWithOffset rest then Date.of? year month day
    else none
  | [] => none

/-! ### Filing dates -/

/-- The part of a text in front of the first `T`, if there is one. -/
def beforeT (cs : List Char) : Option (List Char) :=
  if cs.contains 'T' then some (cs.takeWhile (· != 'T')) else none

def filingDate (cs : List Char) : Option Date :=
  plainDate cs <|> timestampDate cs <|> (beforeT cs).bind plainDate

/-- The date that a filing date names. -/
def parseDate (raw : String) : Option Date := filingDate (Text.trim raw.toList)

end Precedent
