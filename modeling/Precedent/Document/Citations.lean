import Precedent.Document.Field

/-!
# Precedent.Document.Citations

**The citations of a document.** They are a list of identifiers, or an object whose names are
identifiers and whose values say how the citation is drawn. Such a value is an object with at most
one opacity, under either of two spellings, or a list of at most one opacity. Any fault in here is
reported as one and the same mismatch.
-/

namespace Precedent

namespace Json

/-- An opacity, or `null` for none. Any number will do; it is rounded to single precision. -/
def opacity? : Json → Option (Option Opacity)
  | .null => some none
  | .int n => some (some (Number.binary32.ofInt n))
  | .double x => some (some (Number.binary32.convert x))
  | .single x => some (some x)
  | _ => none

/-- The names under which a citation gives its opacity. -/
def opacityNames : List String := ["opacity", "opacitiy"]

/-- How one citation is drawn: the opacity it asks for, if any. -/
def citationOpacity? : Json → Option (Option Opacity)
  | .object members =>
    match members.filter fun m => opacityNames.contains m.1 with
    | [] => some none
    | [m] => m.2.opacity?
    | _ => none
  | .list [] => some none
  | .list [v] => v.opacity?
  | _ => none

/-- A citation as a member of an object. -/
def namedCitation? (m : String × Json) : Option (OpinionId × Option Opacity) :=
  m.2.citationOpacity?.map fun opacity => (OpinionId.parse m.1, opacity)

/-- A citation as an item of a list. -/
def listedId? (v : Json) : Option OpinionId := v.asId.toOption

/-- Citations as an object or as a list. The members of the object are taken in its order, so of
several names that spell one identifier the last one counts. -/
def citations? : Json → Option Citations
  | .object members =>
    (members.mapM namedCitation?).map Citations.ofList
  | .list items => (items.mapM listedId?).map Citations.ofIds
  | _ => none

/-- Citations, or the one mismatch that reports any fault in them. -/
def asCitations (v : Json) : Reads Citations :=
  match v.citations? with
  | some c => .ok c
  | none => .error .citations

end Json

end Precedent
