import Precedent.Document.Cluster
import Precedent.Document.Hit
import Precedent.Fault
import Precedent.Files.Access
import Precedent.Json.Reader

/-!
# Precedent.Document.Reader

**Reading a document.** A document is an object with a list of clusters, or, if it has none, with a
list of search hits and perhaps their number. `parseDocument` reads the text as JSON first, so the
order of members and repeated names are settled before any field is looked at. `loadDocument` reads
the text of a file.
-/

namespace Precedent

def readClusters (v : Json) : Reads (List OpinionRecord) := v.asList clusterShape.read

def readHits (v : Json) : Reads (List OpinionRecord) :=
  (v.asList hitShape.read).map fun drafts => drafts.map HitDraft.finish

def readDocument (v : Json) : Except Fault (List OpinionRecord) :=
  match v.member? "opinion_clusters", v.member? "results" with
  | some clusters, _ => (readClusters clusters).mapError .notDocument
  | none, some hits =>
    -- The reported number of hits is checked, and comes before them in the order of names.
    (do
      let _ ← ((v.member? "count").getD .null).asOption Json.asNatural
      readHits hits).mapError .notDocument
  | none, none => .error .malformedInput

def parseDocument (text : String) : Except Fault (List OpinionRecord) :=
  match Json.read text with
  | .error fault => .error (.notJson fault)
  | .ok v => readDocument v

def loadDocument {m : Type → Type} [Monad m] [FileAccess m] (path : String) :
    ExceptT Fault m (List OpinionRecord) := do
  let text ← (FileAccess.readText path).adapt Fault.file
  ofExcept (parseDocument text)

end Precedent
