import Precedent.Entries
import Precedent.Number.Binary

/-!
# Precedent.Json.Value

**JSON values.** Numbers keep apart what the reader and the writer treat differently: whole numbers
are exact integers, all others are binary floating-point numbers, of double precision when they are
read and of single precision when they are opacities to be written. The members of an object are a
list, so that a written object can have them in any order; `canonical` puts them in the order of
their names and lets the last of several equal names stand, which is how a document is understood.
-/

namespace Precedent

open Number

/-- A JSON value. -/
inductive Json where
  | null
  | bool (b : Bool)
  /-- A number written without fraction and exponent. -/
  | int (n : Int)
  /-- Any other number, in double precision. -/
  | double (x : Binary)
  /-- A number in single precision. -/
  | single (x : Binary)
  | text (s : String)
  | list (items : List Json)
  | object (members : List (String × Json))
deriving Repr, Inhabited

namespace Json

/-- A natural number as a JSON value. -/
def nat (n : Nat) : Json := .int n

/-- A value that may be absent, written as `null` then. -/
def option {α : Type} (f : α → Json) : Option α → Json
  | some a => f a
  | none => .null

mutual
/-- The value with the members of every object in the order of their names, the last value of each
name standing. -/
def canonical : Json → Json
  | .list items => .list (canonicalItems items)
  | .object members => .object (Entries.ofList (canonicalMembers members))
  | .null => .null
  | .bool b => .bool b
  | .int n => .int n
  | .double x => .double x
  | .single x => .single x
  | .text s => .text s
/-- Every item in canonical form. -/
def canonicalItems : List Json → List Json
  | [] => []
  | v :: rest => canonical v :: canonicalItems rest
/-- Every member with its value in canonical form, in the order given. -/
def canonicalMembers : List (String × Json) → List (String × Json)
  | [] => []
  | (name, v) :: rest => (name, canonical v) :: canonicalMembers rest
end

/-- The member of an object with the given name. -/
def member? (name : String) : Json → Option Json
  | .object members => Entries.get? name members
  | _ => none

end Json

end Precedent
