import Precedent.Entries
import Precedent.Number.Binary
import Precedent.Opinion.Id

/-!
# Precedent.Opinion.Citations

**The citations that one opinion makes.** They are a finite map from the identifiers of the cited
opinions to the opacity that their connection asks for, kept in the order of the identifiers; an
opinion is cited at most once.
-/

namespace Precedent

/-- The opacity of a connection, a number of single precision. -/
abbrev Opacity := Number.Binary

/-- The opinions that an opinion cites, each with the opacity it asks for. -/
structure Citations where
  entries : List (OpinionId × Option Opacity)
  increasing : Entries.Increasing entries
deriving DecidableEq, Repr

namespace Citations

def empty : Citations := ⟨[], Entries.increasing_nil⟩

instance : Inhabited Citations := ⟨empty⟩

/-- One more citation; it takes the place of an earlier one of the same opinion. -/
def insert (c : Citations) (id : OpinionId) (opacity : Option Opacity) : Citations :=
  ⟨Entries.insert id opacity c.entries, Entries.increasing_insert id opacity c.increasing⟩

/-- The citations of a list, the last one of each opinion standing. -/
def ofList (pairs : List (OpinionId × Option Opacity)) : Citations :=
  ⟨Entries.ofList pairs, Entries.increasing_ofList pairs⟩

/-- Citations that ask for no opacity. -/
def ofIds (ids : List OpinionId) : Citations := ofList (ids.map fun id => (id, none))

/-- The cited identifiers, in their order. -/
def ids (c : Citations) : List OpinionId := c.entries.map Prod.fst

def cites (c : Citations) (id : OpinionId) : Bool := c.ids.contains id

def opacity? (c : Citations) (id : OpinionId) : Option Opacity :=
  (Entries.get? id c.entries).join

end Citations

end Precedent
