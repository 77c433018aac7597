import Precedent.Document.Field
import Precedent.Json.Reader
import Precedent.Settings

/-!
# Precedent.Settings.Reader

**Reading settings.** Settings are written as a JSON object with all four fields, none of them
twice, or as the list of the four values. What stands under other names is passed over, so it needs
to be well-formed JSON only; a number too large for a double or half of a surrogate pair does no
harm there, nor does deep nesting.
-/

namespace Precedent

namespace Json

/-- A number as an opacity; the number has to be one that a double can hold. -/
def settingOpacity? : Json → Option Opacity
  | .int n => some (Number.binary32.ofInt n)
  | .double x => if x.isFinite then some (Number.binary32.convert x) else none
  | _ => none

/-- A mode by its name, or as an object of its name and `null`. -/
def settingMode? : Json → Option Mode
  | .text s => Mode.ofName? s
  | .object [(s, .null)] => Mode.ofName? s
  | _ => none

/-- An unsigned integer. -/
def settingCount? (v : Json) : Option Nat := v.asNatural.toOption

end Json

namespace Settings

/-- The names of the fields in the order of the list form. -/
def fields : List String := ["max_degree", "mode", "edge_opacity", "cache_capacity"]

/-- Settings from the values of the four fields. -/
def ofValues? : List Json → Option Settings
  | [maxDegree, mode, edgeOpacity, cacheCapacity] => do
    let maxDegree ← maxDegree.settingCount?
    let mode ← mode.settingMode?
    let edgeOpacity ← edgeOpacity.settingOpacity?
    let cacheCapacity ← cacheCapacity.settingCount?
    pure ⟨maxDegree, mode, edgeOpacity, cacheCapacity⟩
  | _ => none

/-- The only value under a name, none if there is no value or more than one. -/
def onlyValue? (members : List (String × Json)) (name : String) : Option Json :=
  match members.filter fun m => m.1 == name with
  | [m] => some m.2
  | _ => none

def read? (text : String) : Option Settings :=
  match Json.readLenient text with
  | .ok (.object members) => (fields.mapM (onlyValue? members)).bind ofValues?
  | .ok (.list items) => ofValues? items
  | _ => none

end Settings

end Precedent
