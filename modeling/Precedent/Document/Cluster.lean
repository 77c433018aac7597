import Precedent.Document.Citations

/-!
# Precedent.Document.Cluster

**Opinion clusters.** A saved map lists its opinions as clusters; the citations of a cluster are
those of its first sub-opinion, but every sub-opinion has to be well-formed.
-/

namespace Precedent

/-- A sub-opinion; the draft is the citations it makes. -/
def subOpinionShape : RecordShape Citations where
  expected := .subOpinion
  fields := ["opinions_cited"]
  required := 0
  blank := .empty
  take c name v :=
    if name = "opinions_cited" then (v.asOption Json.asCitations).map (·.getD .empty)
    else .ok c

/-- A cluster; the draft is the record of the opinion. -/
def clusterShape : RecordShape OpinionRecord where
  expected := .cluster
  fields := ["id", "date_filed", "case_name", "case_name_short", "absolute_url", "citation_count",
    "decision_direction", "votes_majority", "votes_minority", "scdb_id", "sub_opinions"]
  required := 2
  blank := .new (.number 0) ""
  take r name v :=
    match name with
    | "id" => v.asId.map fun id => { r with id }
    | "date_filed" => v.asText.map fun dateFiled => { r with dateFiled }
    | "case_name" => (v.asOption Json.asText).map fun caseName => { r with caseName }
    | "case_name_short" =>
      (v.asOption Json.asText).map fun caseNameShort => { r with caseNameShort }
    | "absolute_url" => (v.asOption Json.asText).map fun absoluteUrl => { r with absoluteUrl }
    | "citation_count" =>
      (v.asOption Json.asNatural).map fun citationCount => { r with citationCount }
    | "decision_direction" =>
      (v.asOption Json.asInteger).map fun decisionDirection => { r with decisionDirection }
    | "votes_majority" =>
      (v.asOption Json.asInteger).map fun votesMajority => { r with votesMajority }
    | "votes_minority" =>
      (v.asOption Json.asInteger).map fun votesMinority => { r with votesMinority }
    | "scdb_id" =>
      (v.asOption Json.asText).map fun scdb => { r with scdbId := scdb.filter (· != "") }
    | "sub_opinions" =>
      (v.asList subOpinionShape.read).map fun subs => { r with cited := subs.headD .empty }
    | _ => .ok r

end Precedent
