import Precedent.Json.Token

/-!
# Precedent.Json.Reader

**Reading JSON.** The reader takes one token after the other and keeps the containers that are
still open, so a text is read by a fold over its tokens and its first fault is the first step that
fails. `Json.read` is strict: it refuses nesting of 128 levels and scalars that are not faithful,
and answers the canonical form of the value. `Json.readLenient` skips both checks and keeps all
members as they are written; only the names of the outermost object have to be faithful for it.
-/

namespace Precedent.Json

/-- How much a reader tolerates. -/
inductive Strictness where
  | strict
  | lenient
deriving DecidableEq, Repr

/-- The number of containers that may be open at once when reading strictly. -/
def depthLimit : Nat := 127

/-- A container that is still open, with what it holds so far, backwards. -/
inductive Frame where
  | list (items : List Json)
  /-- The members so far and the name that the next value belongs to. -/
  | object (members : List (String × Json)) (name : String)

/-- What has been read, and what may come next. The frames are the containers around that place,
innermost first. -/
inductive Reading where
  /-- A value comes next. -/
  | value (frames : List Frame)
  /-- The first item of a list comes next, or its end. -/
  | firstItem (frames : List Frame)
  /-- The first name of an object comes next, or its end. -/
  | firstName (frames : List Frame)
  /-- A further name of an object comes next. -/
  | name (frames : List Frame) (members : List (String × Json))
  /-- The colon after a name comes next. -/
  | colon (frames : List Frame) (members : List (String × Json)) (name : String)
  | complete (frames : List Frame) (value : Json)

namespace Reading

def beginValue (s : Strictness) (frames : List Frame) : Token → Except Fault Reading
  | .scalar v faithful =>
    if faithful || s == .lenient then .ok (.complete frames v) else .error .malformed
  | .listOpen =>
    if s == .lenient || frames.length < depthLimit then .ok (.firstItem frames)
    else .error .malformed
  | .objectOpen =>
    if s == .lenient || frames.length < depthLimit then .ok (.firstName frames)
    else .error .malformed
  | .broken _ fault => .error fault
  | _ => .error .malformed

def beginMember (s : Strictness) (frames : List Frame) (members : List (String × Json)) :
    Token → Except Fault Reading
  | .scalar (.text n) faithful =>
    if faithful || (s == .lenient && !frames.isEmpty) then .ok (.colon frames members n)
    else .error .malformed
  | .broken true fault => .error fault
  | _ => .error .malformed

/-- One token further. -/
def step (s : Strictness) : Reading → Token → Except Fault Reading
  | .value frames, t => beginValue s frames t
  | .firstItem frames, .listClose => .ok (.complete frames (.list []))
  | .firstItem frames, t => beginValue s (.list [] :: frames) t
  | .firstName frames, .objectClose => .ok (.complete frames (.object []))
  | .firstName frames, t => beginMember s frames [] t
  | .name frames members, t => beginMember s frames members t
  | .colon frames members n, .colon => .ok (.value (.object members n :: frames))
  | .complete (.list items :: frames) v, .comma => .ok (.value (.list (v :: items) :: frames))
  | .complete (.list items :: frames) v, .listClose =>
    .ok (.complete frames (.list (v :: items).reverse))
  | .complete (.object members n :: frames) v, .comma => .ok (.name frames ((n, v) :: members))
  | .complete (.object members n :: frames) v, .objectClose =>
    .ok (.complete frames (.object ((n, v) :: members).reverse))
  | _, _ => .error .malformed

/-- The value, if the text may end here. -/
def finish : Reading → Except Fault Json
  | .complete [] v => .ok v
  | _ => .error .unfinished

end Reading

/-- The value that a list of tokens writes, as it is written. -/
def ofTokens (s : Strictness) (ts : List Token) : Except Fault Json := do
  let reading ← ts.foldlM (Reading.step s) (.value [])
  reading.finish

/-- The value of a JSON text, in canonical form. -/
def read (text : String) : Except Fault Json :=
  (ofTokens .strict (tokens text.toList)).map canonical

/-- The value of a JSON text as it is written, without the strict checks. -/
def readLenient (text : String) : Except Fault Json := ofTokens .lenient (tokens text.toList)

end Precedent.Json
