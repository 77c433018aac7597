/-!
# Precedent.Degree

**Degrees of separation.** There are nine degrees and one category for all that is farther away. An
opinion's degree combines its distances to the earliest and the latest opinion; a link's degree the
least depths at which it is crossed from either of them.
-/

namespace Precedent

/-- A degree of separation. -/
inductive Degree where
  | first
  | second
  | third
  | fourth
  | fifth
  | sixth
  | seventh
  | eighth
  | ninth
  | distant
deriving DecidableEq, Repr, Inhabited

namespace Degree

/-- All degrees, the nearest first. -/
def all : List Degree :=
  [first, second, third, fourth, fifth, sixth, seventh, eighth, ninth, distant]

/-- The number of a degree, counted from 0. -/
def index : Degree → Nat
  | first => 0
  | second => 1
  | third => 2
  | fourth => 3
  | fifth => 4
  | sixth => 5
  | seventh => 6
  | eighth => 7
  | ninth => 8
  | distant => 9

/-- The degree with a number; everything past the ninth is distant. -/
def ofIndex : Nat → Degree
  | 0 => first
  | 1 => second
  | 2 => third
  | 3 => fourth
  | 4 => fifth
  | 5 => sixth
  | 6 => seventh
  | 7 => eighth
  | 8 => ninth
  | _ => distant

def label : Degree → String
  | first => "first"
  | second => "second"
  | third => "third"
  | fourth => "fourth"
  | fifth => "fifth"
  | sixth => "sixth"
  | seventh => "seventh"
  | eighth => "eighth"
  | ninth => "ninth"
  | distant => "distant"

/-- The nearer degree is the smaller one. -/
instance : LT Degree := ⟨fun a b => a.index < b.index⟩

instance : LE Degree := ⟨fun a b => a.index ≤ b.index⟩

instance (a b : Degree) : Decidable (a < b) := inferInstanceAs (Decidable (a.index < b.index))

instance (a b : Degree) : Decidable (a ≤ b) := inferInstanceAs (Decidable (a.index ≤ b.index))

/-- The farther of two degrees. -/
instance : Max Degree := ⟨fun a b => if a ≤ b then b else a⟩

/-- The farthest of a list of degrees, the first degree if the list is empty. -/
def farthest (ds : List Degree) : Degree := ds.foldl max first

/-- Every degree is that of its number. -/
@[simp] theorem ofIndex_index (d : Degree) : ofIndex d.index = d := by cases d <;> rfl

/-- A number past the ninth is that of the distant category. -/
theorem index_ofIndex (n : Nat) : (ofIndex n).index = min n 9 := by
  match n with
  | 0 | 1 | 2 | 3 | 4 | 5 | 6 | 7 | 8 => rfl
  | n + 9 => simp only [ofIndex, index]; omega

/-- Whether an opinion of the given degree is kept under a limit. -/
def isBelow (d : Degree) (limit : Nat) : Bool := d.index < limit

/-! ### Combining distances -/

/-- The degree of an opinion at an index of a set, from its distances to the earliest opinion
(`forward`) and the latest one (`backward`). Those two opinions themselves are of first degree, as
is anything at distance zero; an opinion that is not reached from both is distant. -/
def ofNode (index size : Nat) (forward backward : Option Nat) : Degree :=
  if index = 0 || index + 1 = size then first
  else
    match forward, backward with
    | some 0, _ => first
    | _, some 0 => first
    | some f, some b => ofIndex (f + b - 1)
    | _, _ => distant

/-- The degree of a link, from the least depths at which it is crossed from the earliest opinion and
from the latest one. A depth counts the far end, so a link between the two has depths one and
one. -/
def ofLink (forward backward : Option Nat) : Degree :=
  match forward, backward with
  | some f, some b => ofIndex (f + b - 2)
  | _, _ => distant

end Degree

end Precedent
