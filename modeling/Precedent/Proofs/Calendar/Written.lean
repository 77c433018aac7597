import Precedent.Calendar.Reader
import Precedent.Proofs.Text.Written

/-!
# Precedent.Proofs.Calendar.Written

**A written date reads as itself.** Years of up to four digits are filled up to four places and read
as four digits at most; a year before 0 or after 9999 has a sign in front of it, and then all of its
digits are read.
-/

namespace Precedent

/-! ### Numbers in front of a text -/

section Digits

variable {ds rest : List Char} (hdigits : ∀ c ∈ ds, c.isDigit = true)
include hdigits

theorem trimStart_digits (hne : ds ≠ []) : Text.trimStart (ds ++ rest) = ds ++ rest := by
  refine Text.trimStart_of_head? fun c hc => ?_
  rw [List.head?_append_of_ne_nil _ hne] at hc
  exact Text.isBlank_of_isDigit (hdigits c (List.mem_of_mem_head? hc))

theorem takeWhile_digits : (ds ++ '-' :: rest).takeWhile Char.isDigit = ds := by
  rw [List.takeWhile_append_of_pos hdigits, List.takeWhile_cons_of_neg (by decide), List.append_nil]

/-- A number that fills its places is read from them. -/
theorem leadingNumber_digits (hne : ds ≠ []) (rest : List Char) :
    leadingNumber ds.length (ds ++ rest) = some (Nat.ofDigitChars 10 ds 0, rest) := by
  have hall : ds.takeWhile Char.isDigit = ds := List.takeWhile_eq_self_iff.mpr hdigits
  rw [leadingNumber, trimStart_digits hdigits hne, List.take_left, hall, List.drop_left,
    if_neg (by simpa using hne)]

/-- All digits behind a sign belong to the year. -/
theorem leadingYear_minus (hne : ds ≠ []) :
    leadingYear ('-' :: (ds ++ '-' :: rest)) =
      some (-(Nat.ofDigitChars 10 ds 0 : Int), '-' :: rest) := by
  have hstart : Text.trimStart ('-' :: (ds ++ '-' :: rest)) = '-' :: (ds ++ '-' :: rest) := rfl
  rw [leadingYear, hstart]
  simp [takeWhile_digits hdigits, hne]

theorem leadingYear_plus (hne : ds ≠ []) :
    leadingYear ('+' :: (ds ++ '-' :: rest)) =
      some ((Nat.ofDigitChars 10 ds 0 : Int), '-' :: rest) := by
  have hstart : Text.trimStart ('+' :: (ds ++ '-' :: rest)) = '+' :: (ds ++ '-' :: rest) := rfl
  rw [leadingYear, hstart]
  simp [takeWhile_digits hdigits, hne]

/-- A year without a sign is a number of four digits at most. -/
theorem leadingYear_digits (hne : ds ≠ []) :
    leadingYear (ds ++ rest) = (leadingNumber 4 (ds ++ rest)).map fun n => ((n.1 : Int), n.2) := by
  rw [leadingYear, trimStart_digits hdigits hne]
  cases ds with
  | nil => exact absurd rfl hne
  | cons c ds =>
      have hc := hdigits c List.mem_cons_self
      split
      · next heq =>
          obtain rfl := (List.cons.inj heq).1
          cases hc
      · next heq =>
          obtain rfl := (List.cons.inj heq).1
          cases hc
      · rfl

end Digits

theorem leadingNumber_padded {width n : Nat} (hwidth : 0 < width) (h : n < 10 ^ width)
    (rest : List Char) : leadingNumber width (Text.padded width n ++ rest) = some (n, rest) := by
  have hread := leadingNumber_digits (fun _ hc => Text.isDigit_of_mem_padded hc)
    (Text.padded_ne_nil width n) rest
  rwa [Text.length_padded hwidth h, Text.ofDigitChars_padded] at hread

/-- A written year is read as itself, whatever follows its hyphen. -/
theorem leadingYear_yearText (year : Int) (rest : List Char) :
    leadingYear (Date.yearText year ++ '-' :: rest) = some (year, '-' :: rest) := by
  unfold Date.yearText
  by_cases hneg : year < 0
  · have habs : -(year.natAbs : Int) = year := by omega
    rw [if_pos hneg, List.cons_append, leadingYear_minus (fun _ => Text.isDigit_of_mem_padded)
      (Text.padded_ne_nil _ _), Text.ofDigitChars_padded, habs]
  · have habs : (year.natAbs : Int) = year := by omega
    rw [if_neg hneg]
    by_cases hlong : 9999 < year
    · rw [if_pos hlong, List.cons_append, leadingYear_plus
        (fun _ => Text.isDigit_of_mem_digitsOf) (Text.digitsOf_ne_nil _),
        Text.ofDigitChars_digitsOf, habs]
    · rw [if_neg hlong, leadingYear_digits (fun _ => Text.isDigit_of_mem_padded)
        (Text.padded_ne_nil _ _), leadingNumber_padded (by decide) (by omega), Option.map_some,
        habs]

namespace Date

variable (d : Date)

theorem of?_self : of? d.year d.month d.day = some d := by
  rw [of?, dif_pos d.year_mem, dif_pos d.day_mem]

theorem month_lt : d.month < 10 ^ 2 := by
  by_contra hge
  have hnone : daysInMonth d.year d.month = 0 := by
    unfold daysInMonth
    split <;> omega
  have hmem := d.day_mem
  omega

theorem day_lt : d.day < 10 ^ 2 := by
  have hle : daysInMonth d.year d.month ≤ 31 := by
    unfold daysInMonth
    repeat' split
    all_goals omega
  have hmem := d.day_mem
  omega

/-- A date is written in digits and signs. -/
theorem isDigit_or_sign_of_mem_written {c : Char} (h : c ∈ d.written) :
    c.isDigit = true ∨ c = '-' ∨ c = '+' := by
  have hpadded : ∀ width n, c ∈ Text.padded width n → c.isDigit = true := fun _ _ =>
    Text.isDigit_of_mem_padded
  have hyear : c ∈ yearText d.year → c.isDigit = true ∨ c = '-' ∨ c = '+' := by
    intro hc
    unfold yearText at hc
    split at hc
    · rcases List.mem_cons.mp hc with rfl | hc
      · exact Or.inr (Or.inl rfl)
      · exact Or.inl (hpadded _ _ hc)
    · split at hc
      · rcases List.mem_cons.mp hc with rfl | hc
        · exact Or.inr (Or.inr rfl)
        · exact Or.inl (Text.isDigit_of_mem_digitsOf hc)
      · exact Or.inl (hpadded _ _ hc)
  simp only [written, List.append_assoc, List.mem_append, List.mem_cons, List.cons_append] at h
  rcases h with h | rfl | h | rfl | h
  · exact hyear h
  · exact Or.inr (Or.inl rfl)
  · exact Or.inl (hpadded _ _ h)
  · exact Or.inr (Or.inl rfl)
  · exact Or.inl (hpadded _ _ h)

theorem isBlank_of_mem_written {c : Char} (h : c ∈ d.written) : Text.isBlank c = false := by
  rcases d.isDigit_or_sign_of_mem_written h with h | rfl | rfl
  · exact Text.isBlank_of_isDigit h
  · rfl
  · rfl

/-- A written date is a plain date as long as nothing follows it. -/
theorem plainDate_written_append (rest : List Char) :
    plainDate (d.written ++ rest) = if rest.isEmpty then some d else none := by
  have hmonth := leadingNumber_padded (by decide) d.month_lt ('-' :: (Text.padded 2 d.day ++ rest))
  have hday := leadingNumber_padded (by decide) d.day_lt rest
  have hwritten : d.written ++ rest = yearText d.year ++
      '-' :: (Text.padded 2 d.month ++ '-' :: (Text.padded 2 d.day ++ rest)) := by
    simp only [written, List.append_assoc, List.cons_append]
  rw [hwritten, plainDate, leadingYear_yearText]
  simp [afterChar, hmonth, hday, of?_self]

theorem plainDate_written : plainDate d.written = some d := by
  simpa using d.plainDate_written_append []

/-- **A written date is read as itself.** -/
theorem parseDate_text : parseDate d.text = some d := by
  rw [parseDate, text, String.toList_ofList,
    Text.trim_of_forall_not_isBlank fun _ => d.isBlank_of_mem_written, filingDate,
    plainDate_written]
  rfl

end Date

end Precedent
