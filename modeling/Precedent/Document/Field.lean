import Precedent.Document.Mismatch
import Precedent.Json.Numeral
import Precedent.Opinion.Record

/-!
# Precedent.Document.Field

**Reading the fields of a record.** A record of a document is an object, or a list of its fields in
the order in which they are declared. `RecordShape.read` goes through the members of the object (or
the items of the list) one by one, so the first faulty field in that order is reported; only then
does it look for required fields that are not there. Names that the record does not know are passed
over.
-/

namespace Precedent

/-- The result of reading a part of a document. -/
abbrev Reads (α : Type) := Except Mismatch α

namespace Json

def asText : Json → Reads String
  | .text s => .ok s
  | v => .error (.kind v .text)

/-- An unsigned 64-bit integer. -/
def asNatural : Json → Reads Nat
  | .int n => if Number.fitsUnsigned n then .ok n.toNat else .error (.range n .natural)
  | v => .error (.kind v .natural)

/-- A signed 64-bit integer. -/
def asInteger : Json → Reads Int
  | .int n => if Number.fitsSigned n then .ok n else .error (.range n .integer)
  | v => .error (.kind v .integer)

/-- An identifier: an unsigned integer, or a text that is parsed. -/
def asId : Json → Reads OpinionId
  | .int n =>
    if h : 0 ≤ n ∧ n.toNat < UInt64.size then .ok (.number (UInt64.ofNatLT n.toNat h.2))
    else .error .identifier
  | .text s => .ok (.parse s)
  | _ => .error .identifier

/-- A value that may be `null`. -/
def asOption {α : Type} (f : Json → Reads α) : Json → Reads (Option α)
  | .null => .ok none
  | v => (f v).map some

/-- A list, item by item. -/
def asList {α : Type} (f : Json → Reads α) : Json → Reads (List α)
  | .list items => items.mapM f
  | v => .error (.kind v .list)

end Json

/-- The fields of a record and how a draft of the record takes them up. -/
structure RecordShape (δ : Type) where
  /-- What is expected where the record stands. -/
  expected : Expected
  /-- The names of the fields in the order of declaration. -/
  fields : List String
  /-- How many fields, from the first on, are required. -/
  required : Nat
  /-- The draft before any field. -/
  blank : δ
  /-- Take up a field; fields of other names change nothing. -/
  take : δ → String → Json → Reads δ

namespace RecordShape

variable {δ : Type}

/-- Take up fields one after the other. -/
def takeAll (s : RecordShape δ) (members : List (String × Json)) : Reads δ :=
  members.foldlM (fun d m => s.take d m.1 m.2) s.blank

/-- The first required field that is not among the given names. -/
def absent? (s : RecordShape δ) (names : List String) : Option String :=
  (s.fields.take s.required).find? fun name => !names.contains name

/-- Read a record from an object or from a list of its fields. -/
def read (s : RecordShape δ) : Json → Reads δ
  | .object members => do
    let draft ← s.takeAll members
    match s.absent? (members.map Prod.fst) with
    | some name => .error (.missing name)
    | none => .ok draft
  | .list items => do
    let draft ← s.takeAll (s.fields.zip items)
    if items.length < s.required then
      .error (.tooShort items.length s.expected s.fields.length)
    else if s.fields.length < items.length then .error (.tooLong items.length)
    else .ok draft
  | v => .error (.kind v s.expected)

end RecordShape

end Precedent
