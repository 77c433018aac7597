import Precedent.Json.Writer
import Precedent.Text.Quoted

/-!
# Precedent.Document.Mismatch

**What is wrong with a JSON value that is no document.** A `Mismatch` is the cause, `message` its
wording: the value found where another kind was expected, a missing field, a list that is too short
or too long for the fields it stands for, or a value that fits none of the forms allowed for it.
-/

namespace Precedent

/-- What a place of a document calls for. -/
inductive Expected where
  | text
  | list
  /-- An integer from 0 below `2 ^ 64`. -/
  | natural
  /-- An integer from `-2 ^ 63` below `2 ^ 63`. -/
  | integer
  | cluster
  | hit
  | subOpinion
deriving DecidableEq, Repr

/-- The wording for what was expected. -/
def Expected.phrase : Expected → String
  | .text => "a string"
  | .list => "a sequence"
  | .natural => "u64"
  | .integer => "i64"
  | .cluster => "struct ClusterWire"
  | .hit => "struct SearchHit"
  | .subOpinion => "struct SubOpinionWire"

/-- The wording for a value that was found. -/
def Json.phrase : Json → String
  | .null => "null"
  | .bool b => "boolean `" ++ (if b then "true" else "false") ++ "`"
  | .int n => "integer `" ++ String.ofList (writtenInt n) ++ "`"
  | .double x => "floating point `" ++ String.ofList (writtenScalar (.double x)) ++ "`"
  | .single x => "floating point `" ++ String.ofList (writtenScalar (.single x)) ++ "`"
  | .text s => "string " ++ Text.quoted s
  | .list _ => "sequence"
  | .object _ => "map"

/-- Why a JSON value is no document. -/
inductive Mismatch where
  /-- A value of another kind. -/
  | kind (found : Json) (expected : Expected)
  /-- An integer out of range. -/
  | range (found : Int) (expected : Expected)
  /-- A required field is not there. -/
  | missing (field : String)
  /-- A list that stands for a record ends before its required fields. -/
  | tooShort (length : Nat) (expected : Expected) (fields : Nat)
  /-- A list that stands for a record has more items than the record has fields. -/
  | tooLong (length : Nat)
  /-- No identifier. -/
  | identifier
  /-- Neither a list of identifiers nor an object of citations. -/
  | citations
deriving Repr

def Mismatch.message : Mismatch → String
  | .kind found expected => "invalid type: " ++ found.phrase ++ ", expected " ++ expected.phrase
  | .range found expected =>
    "invalid value: " ++ (Json.int found).phrase ++ ", expected " ++ expected.phrase
  | .missing field => "missing field `" ++ field ++ "`"
  | .tooShort length expected fields =>
    "invalid length " ++ toString length ++ ", expected " ++ expected.phrase ++ " with " ++
      toString fields ++ " elements"
  | .tooLong length =>
    "invalid length " ++ toString length ++ ", expected fewer elements in array"
  | .identifier => "data did not match any variant of untagged enum RawId"
  | .citations => "data did not match any variant of untagged enum CitedWire"

end Precedent
