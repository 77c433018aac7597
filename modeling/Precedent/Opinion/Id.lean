import Precedent.Text.Basic

/-!
# Precedent.Opinion.Id

**Identifiers of opinions.** Opinions are numbered, but the keys of an object are always texts, so a
text that spells a 64-bit number is that number. `OpinionId.parse` takes every spelling of a number
(blanks around it, leading zeros, a plus sign) to one identifier; all other texts stay texts, less
the blanks at their ends. Numbers come before texts in the order of identifiers.
-/

namespace Precedent

/-- The identifier of an opinion. -/
inductive OpinionId where
  | number (value : UInt64)
  | text (value : String)
deriving DecidableEq, Repr, Inhabited

namespace OpinionId

/-- The identifier that a text spells: a number where that is possible. -/
def parse (raw : String) : OpinionId :=
  let trimmed := Text.trim raw.toList
  match Text.word? trimmed with
  | some n => .number n
  | none => .text (String.ofList trimmed)

/-- The text of an identifier. -/
def display : OpinionId → String
  | .number n => String.ofList (Text.digitsOf n.toNat)
  | .text s => s

/-! ### Order -/

/-- Numbers by value come before texts by code points. -/
instance : Ord OpinionId where
  compare
    | .number a, .number b => compare a b
    | .number _, .text _ => .lt
    | .text _, .number _ => .gt
    | .text a, .text b => compare a b

theorem compare_number (a b : UInt64) :
    compare (OpinionId.number a) (OpinionId.number b) = compare a b := rfl

theorem compare_text (a b : String) :
    compare (OpinionId.text a) (OpinionId.text b) = compare a b := rfl

theorem compare_number_text (a : UInt64) (b : String) :
    compare (OpinionId.number a) (OpinionId.text b) = .lt := rfl

theorem compare_text_number (a : String) (b : UInt64) :
    compare (OpinionId.text a) (OpinionId.number b) = .gt := rfl

instance : Std.TransOrd OpinionId where
  eq_swap {a b} := by
    cases a <;> cases b
    · rw [compare_number, compare_number]; exact Std.OrientedCmp.eq_swap
    · rfl
    · rfl
    · rw [compare_text, compare_text]; exact Std.OrientedCmp.eq_swap
  isLE_trans {a b c} hab hbc := by
    cases a <;> cases b <;> cases c <;>
      simp_all only [compare_number, compare_text, compare_number_text, compare_text_number,
        Ordering.isLE_gt, Ordering.isLE_lt, Bool.false_eq_true]
    all_goals exact Std.TransCmp.isLE_trans hab hbc

instance : Std.LawfulEqOrd OpinionId where
  eq_of_compare {a b} h := by
    cases a <;> cases b <;>
      simp_all [compare_number, compare_text, compare_number_text, compare_text_number]

end OpinionId

end Precedent
