import Precedent.Proofs.Calendar.Written

/-!
# Precedent.Proofs.Calendar.Timestamp

**A timestamp is filed on the date that it starts with.** Three readings of a filing date are tried
in turn, and none of them goes beyond what stands in front: a plain date takes nothing that follows
it, a timestamp with an offset gives its own date and not that of another zone, and what stands
before the first `T` is the date itself. So a written date with anything behind it is read as this
date or not at all, and a `T` behind it makes sure that it is read.
-/

namespace Precedent

/-! ### Fields of fixed width -/

theorem fixedNumber_padded {width n : Nat} (hwidth : 0 < width) (h : n < 10 ^ width)
    (rest : List Char) : fixedNumber width (Text.padded width n ++ rest) = some (n, rest) := by
  have hlength := Text.length_padded hwidth h
  have hall : (Text.padded width n).all Char.isDigit = true :=
    List.all_eq_true.mpr fun _ => Text.isDigit_of_mem_padded
  rw [fixedNumber, List.take_left' hlength, List.drop_left' hlength, hall, hlength,
    Text.ofDigitChars_padded]
  simp

/-- A number of fixed width has no sign. -/
theorem fixedNumber_cons {c : Char} (hc : c.isDigit = false) (width : Nat) (rest : List Char) :
    fixedNumber (width + 1) (c :: rest) = none := by
  rw [fixedNumber, List.take_succ_cons, List.all_cons, hc]
  simp

namespace Date

variable (d : Date) {rest : List Char} {d' : Date}

/-- A written year has four digits or a sign in front. -/
theorem yearText_cases (year : Int) :
    (0 ≤ year ∧ year ≤ 9999 ∧ yearText year = Text.padded 4 year.natAbs) ∨
      ∃ sign ds, sign.isDigit = false ∧ yearText year = sign :: ds := by
  unfold yearText
  by_cases hneg : year < 0
  · exact Or.inr ⟨'-', _, rfl, if_pos hneg⟩
  · rw [if_neg hneg]
    by_cases hlong : 9999 < year
    · exact Or.inr ⟨'+', _, rfl, if_pos hlong⟩
    · exact Or.inl ⟨by omega, by omega, if_neg hlong⟩

/-! ### The three readings -/

/-- A timestamp with an offset has the date that it starts with, or a year that it cannot have. -/
theorem eq_of_timestampDate_written (h : timestampDate (d.written ++ rest) = some d') : d' = d := by
  have hwritten : d.written ++ rest = yearText d.year ++
      '-' :: (Text.padded 2 d.month ++ '-' :: (Text.padded 2 d.day ++ rest)) := by
    simp only [written, List.append_assoc, List.cons_append]
  rw [hwritten] at h
  rcases yearText_cases d.year with ⟨hnonneg, hle, hyear⟩ | ⟨sign, ds, hsign, hyear⟩
  · have habs : (d.year.natAbs : Int) = d.year := by omega
    have hyear' : ∀ rest, fixedNumber 4 (Text.padded 4 d.year.natAbs ++ rest) =
        some (d.year.natAbs, rest) := fixedNumber_padded (by decide) (by omega)
    have hmonth := fixedNumber_padded (by decide) d.month_lt
    have hday := fixedNumber_padded (by decide) d.day_lt
    simp only [timestampDate, hyear, hyear', hmonth, hday, afterChar, habs, of?_self,
      Option.bind_eq_bind, Option.bind_some, beq_self_eq_true, if_true] at h
    split at h
    · split at h
      · exact (Option.some.inj h).symm
      · cases h
    · cases h
  · rw [hyear, timestampDate, List.cons_append, fixedNumber_cons hsign] at h
    cases h

theorem ne_letterT_of_mem_written {c : Char} (h : c ∈ d.written) : (c != 'T') = true := by
  rcases d.isDigit_or_sign_of_mem_written h with h | rfl | rfl
  · refine bne_iff_ne.mpr fun hc => ?_
    rw [hc] at h
    cases h
  · rfl
  · rfl

/-- The first `T` stands behind the date, so all of the date stands in front of it. -/
theorem beforeT_written_append (rest : List Char) :
    beforeT (d.written ++ rest) = (beforeT rest).map (d.written ++ ·) := by
  have hnot : 'T' ∉ d.written := fun h => absurd rfl (bne_iff_ne.mp (d.ne_letterT_of_mem_written h))
  rw [beforeT, beforeT, List.takeWhile_append_of_pos fun _ => d.ne_letterT_of_mem_written]
  by_cases hT : 'T' ∈ rest
  · simp [hT]
  · simp [hT, hnot]

theorem eq_of_plainDate_written (h : plainDate (d.written ++ rest) = some d') : d' = d := by
  rw [plainDate_written_append] at h
  split at h
  · exact (Option.some.inj h).symm
  · cases h

/-- Whichever reading succeeds, it gives the date in front. -/
theorem eq_of_filingDate_written (h : filingDate (d.written ++ rest) = some d') : d' = d := by
  simp only [filingDate, Option.orElse_eq_orElse, Option.orElse_eq_or, Option.or_eq_some_iff] at h
  rcases h with h | ⟨-, h | ⟨-, h⟩⟩
  · exact d.eq_of_plainDate_written h
  · exact d.eq_of_timestampDate_written h
  · rw [beforeT_written_append] at h
    obtain ⟨cs, hcs, hplain⟩ := Option.bind_eq_some_iff.mp h
    obtain ⟨front, -, rfl⟩ := Option.map_eq_some_iff.mp hcs
    exact d.eq_of_plainDate_written hplain

theorem filingDate_written : filingDate d.written = some d := by
  rw [filingDate, plainDate_written]
  rfl

/-- With a `T` behind the date, the last reading succeeds if no other one does. -/
theorem filingDate_written_letterT (rest : List Char) :
    filingDate (d.written ++ 'T' :: rest) = some d := by
  have hfront : beforeT ('T' :: rest) = some [] := by simp [beforeT]
  have hlast : (beforeT (d.written ++ 'T' :: rest)).bind plainDate = some d := by
    rw [beforeT_written_append, hfront, Option.map_some, Option.bind_some, List.append_nil,
      plainDate_written]
  cases hread : filingDate (d.written ++ 'T' :: rest) with
  | some d' => rw [d.eq_of_filingDate_written hread]
  | none =>
      simp only [filingDate, hlast, Option.orElse_eq_orElse, Option.orElse_eq_or,
        Option.or_eq_none_iff, reduceCtorEq, and_false] at hread

/-! ### Filing dates -/

/-- The blanks around a filing date do not count, nor those behind what follows it. -/
theorem parseDate_blanks {before : String} (hbefore : ∀ c ∈ before.toList, Text.isBlank c = true)
    (rest : String) : parseDate (before ++ d.text ++ rest) =
      filingDate (d.written ++ Text.trimEnd rest.toList) := by
  have hne : d.written ≠ [] := List.append_ne_nil_of_right_ne_nil _ (List.cons_ne_nil _ _)
  rw [parseDate, String.toList_append, String.toList_append, text, String.toList_ofList,
    List.append_assoc, Text.trim_blanks_append hbefore hne fun _ => d.isBlank_of_mem_written]

/-- **A filing date is the date that it starts with,** for every date, all blanks around it and
whatever stands behind a `T`. Any other text that starts with a date is read as this date or not at
all. -/
theorem parseDate_startsWith {before after : String}
    (hbefore : ∀ c ∈ before.toList, Text.isBlank c = true)
    (hafter : ∀ c ∈ after.toList, Text.isBlank c = true) :
    parseDate (before ++ d.text ++ after) = some d ∧
      (∀ tail, parseDate (before ++ d.text ++ ("T" ++ tail)) = some d) ∧
      ∀ tail d', parseDate (before ++ d.text ++ tail) = some d' → d' = d := by
  refine ⟨?_, fun tail => ?_, fun tail d' h => ?_⟩
  · rw [parseDate_blanks d hbefore, Text.trimEnd_of_forall_isBlank hafter, List.append_nil,
      filingDate_written]
  · have hT : Text.trimEnd ("T" ++ tail).toList = 'T' :: Text.trimEnd tail.toList := by
      have hblank : ∀ c ∈ ['T'], Text.isBlank c = false := by simp [Text.isBlank]
      rw [String.toList_append]
      exact Text.trimEnd_append hblank _
    rw [parseDate_blanks d hbefore, hT, filingDate_written_letterT]
  · rw [parseDate_blanks d hbefore] at h
    exact d.eq_of_filingDate_written h

/-- The day of a leap second. -/
def leapSecondDay : Date := ⟨2016, 12, 31, by decide, by decide⟩

/-- A leap second with an offset by which the next day is almost over at the prime meridian: the
timestamp is read as such, and gives the day that it starts with. -/
theorem parseDate_startsWith_leapSecond :
    (∀ c ∈ "\u3000".toList, Text.isBlank c = true) ∧ (∀ c ∈ "\n".toList, Text.isBlank c = true) ∧
      timestampDate "2016-12-31T23:59:60-23:59".toList = some leapSecondDay ∧
      parseDate ("\u3000" ++ leapSecondDay.text ++ "\n") = some leapSecondDay ∧
      parseDate ("\u3000" ++ leapSecondDay.text ++ ("T" ++ "23:59:60-23:59")) =
        some leapSecondDay := by
  have hbefore : ∀ c ∈ "\u3000".toList, Text.isBlank c = true := by simp [Text.isBlank]
  have hafter : ∀ c ∈ "\n".toList, Text.isBlank c = true := by simp [Text.isBlank]
  obtain ⟨hblanks, htail, -⟩ := leapSecondDay.parseDate_startsWith hbefore hafter
  exact ⟨hbefore, hafter, by decide +kernel, hblanks, htail _⟩

end Date

end Precedent
