import Precedent.Document.Field

/-!
# Precedent.Document.Hit

**Search hits.** A search answers a list of hits; a hit cites by a list of identifiers. A hit
without a short name, or with an empty one, takes the first of its reporter citations for it.
-/

namespace Precedent

/-- What is read of a hit: its record and the first of its reporter citations. -/
structure HitDraft where
  record : OpinionRecord
  reporter : Option String

def HitDraft.finish (d : HitDraft) : OpinionRecord :=
  { d.record with caseNameShort := d.record.caseNameShort.filter (· != "") <|> d.reporter }

def hitShape : RecordShape HitDraft where
  expected := .hit
  fields := ["id", "dateFiled", "cites", "caseName", "caseNameShort", "absolute_url", "citation"]
  required := 2
  blank := ⟨.new (.number 0) "", none⟩
  take d name v :=
    match name with
    | "id" => v.asId.map fun id => { d with record := { d.record with id } }
    | "dateFiled" =>
      v.asText.map fun dateFiled => { d with record := { d.record with dateFiled } }
    | "cites" =>
      (v.asList Json.asId).map fun ids =>
        { d with record := { d.record with cited := .ofIds ids } }
    | "caseName" =>
      (v.asOption Json.asText).map fun caseName =>
        { d with record := { d.record with caseName } }
    | "caseNameShort" =>
      (v.asOption Json.asText).map fun caseNameShort =>
        { d with record := { d.record with caseNameShort } }
    | "absolute_url" =>
      (v.asOption Json.asText).map fun absoluteUrl =>
        { d with record := { d.record with absoluteUrl } }
    | "citation" => (v.asList Json.asText).map fun texts => { d with reporter := texts.head? }
    | _ => .ok d

end Precedent
