import Precedent.Document.Mismatch
import Precedent.Files.Fault
import Precedent.Json.Token
import Precedent.Opinion.Id

/-!
# Precedent.Fault

**Why a citation map cannot be drawn.** A `Fault` is the cause; `Fault.message` is its wording.
-/

namespace Precedent

/-- Why a citation map cannot be drawn. -/
inductive Fault where
  /-- There are no opinions. -/
  | emptyDataset
  /-- Two opinions have one identifier. -/
  | duplicateOpinion (id : OpinionId)
  /-- A filing date names no date. -/
  | invalidDate (id : OpinionId) (raw : String)
  /-- A degree limit keeps no degree. -/
  | invalidDegreeLimit (limit : Nat)
  /-- An identifier is not that of an opinion of the set. -/
  | unknownOpinion (id : OpinionId)
  /-- A document has neither of the two shapes. -/
  | malformedInput
  /-- A file could not be read or written. -/
  | file (fault : FileFault)
  /-- A text is not JSON. -/
  | notJson (fault : Json.Fault)
  /-- A JSON value is no document. -/
  | notDocument (mismatch : Mismatch)
deriving Repr

def Fault.message : Fault → String
  | .emptyDataset => "no opinion clusters in the input"
  | .duplicateOpinion id => "opinion " ++ id.display ++ " appears more than once"
  | .invalidDate id raw =>
    "opinion " ++ id.display ++ " has an unparsable date_filed " ++ Text.quoted raw
  | .invalidDegreeLimit limit => "degree limit must be at least 1, got " ++ toString limit
  | .unknownOpinion id => "opinion " ++ id.display ++ " is not in the working set"
  | .malformedInput => "malformed input: expected an `opinion_clusters` or `results` array"
  | .file fault => fault.message
  | .notJson .malformed => "the text is not JSON"
  | .notJson .unfinished => "the text ends before the JSON value is complete"
  | .notDocument mismatch => mismatch.message

end Precedent
