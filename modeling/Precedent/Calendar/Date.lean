import Precedent.Text.Basic

/-!
# Precedent.Calendar.Date

**Dates of the proleptic Gregorian calendar,** from the year -262143 to the year 262142. A `Date`
holds a real date: its fields carry the proof that the month has such a day. Dates are ordered by
year, month and day, and written with at least four digits for the year, a sign in front of it when
it is negative or has more than four digits.
-/

namespace Precedent

/-- Whether a year has a 29th of February. -/
def isLeapYear (year : Int) : Bool := year % 4 = 0 && (year % 100 != 0 || year % 400 = 0)

/-- The number of days of a month, none for a number that is no month. -/
def daysInMonth (year : Int) (month : Nat) : Nat :=
  match month with
  | 1 | 3 | 5 | 7 | 8 | 10 | 12 => 31
  | 4 | 6 | 9 | 11 => 30
  | 2 => if isLeapYear year then 29 else 28
  | _ => 0

/-- The earliest year of the calendar. -/
def firstYear : Int := -262143

/-- The latest year of the calendar. -/
def lastYear : Int := 262142

/-- A date of the calendar. -/
structure Date where
  year : Int
  month : Nat
  day : Nat
  year_mem : firstYear ≤ year ∧ year ≤ lastYear
  day_mem : 1 ≤ day ∧ day ≤ daysInMonth year month
deriving DecidableEq, Repr

namespace Date

/-- The date with the given numbers, if there is one. -/
def of? (year : Int) (month day : Nat) : Option Date :=
  if hy : firstYear ≤ year ∧ year ≤ lastYear then
    if hd : 1 ≤ day ∧ day ≤ daysInMonth year month then some ⟨year, month, day, hy, hd⟩ else none
  else none

/-- Earlier dates come first. -/
instance : Ord Date where
  compare := compareLex (compareOn Date.year) (compareLex (compareOn Date.month)
    (compareOn Date.day))

instance : Std.TransOrd Date :=
  inferInstanceAs (Std.TransCmp (compareLex (compareOn Date.year)
    (compareLex (compareOn Date.month) (compareOn Date.day))))

instance : Std.LawfulEqOrd Date where
  eq_of_compare {a b} h := by
    obtain ⟨ya, ma, da, _, _⟩ := a
    obtain ⟨yb, mb, db, _, _⟩ := b
    obtain ⟨hy, hrest⟩ := compareLex_eq_eq.1 h
    obtain ⟨hm, hd⟩ := compareLex_eq_eq.1 hrest
    obtain rfl : ya = yb := Std.LawfulEqOrd.eq_of_compare hy
    obtain rfl : ma = mb := Std.LawfulEqOrd.eq_of_compare hm
    obtain rfl : da = db := Std.LawfulEqOrd.eq_of_compare hd
    rfl

/-- The year of a date as it is written. -/
def yearText (year : Int) : List Char :=
  if year < 0 then '-' :: Text.padded 4 year.natAbs
  else if 9999 < year then '+' :: Text.digitsOf year.natAbs
  else Text.padded 4 year.natAbs

def written (d : Date) : List Char :=
  yearText d.year ++ '-' :: Text.padded 2 d.month ++ '-' :: Text.padded 2 d.day

/-- A date as year, month and day. -/
def text (d : Date) : String := String.ofList d.written

end Date

end Precedent
