import Precedent.Chart.Basic
import Precedent.Json.Writer

/-!
# Precedent.Report

**The three files of a report.** The summary holds the counts of the whole map, the table one row
for each opinion that is kept, and the drawing all that is needed to draw the chart. Summary and
table have the names of every object in order; the drawing keeps the order in which its parts are
listed here.
-/

namespace Precedent

/-- An identifier: a number, or a text. -/
def OpinionId.json : OpinionId → Json
  | .number n => .nat n.toNat
  | .text s => .text s

/-- The warning about a loop of citations. -/
def loopWarning (members : List OpinionId) : Json :=
  .object [("kind", .text "citation_cycle"), ("members", .list (members.map OpinionId.json))]

/-! ### The summary -/

def Network.countsJson (g : Network) : Json :=
  .object
    [("opinion_count", .nat g.size),
      ("citation_count", .nat g.citationCount),
      ("link_count", .nat g.linkCount),
      ("dangling_citations", .nat g.tally.dangling),
      ("self_citations", .nat g.tally.ofSelf),
      ("mutual_citations", .nat g.tally.folded)]

/-- The farthest degree and how many opinions have each degree. -/
def Degrees.json (d : Degrees) : Json :=
  .object
    [("max_degree", .text d.max.label),
      ("histogram", .object (d.histogram.map fun (degree, n) => (degree.label, .nat n)))]

def TrimmedMap.countsJson (t : TrimmedMap) : Json :=
  .object
    [("limit", .nat t.limit),
      ("mode", .text t.mode.name),
      ("kept_opinions", .nat t.opinions.length),
      ("kept_links", .nat t.links.length)]

/-- How the parents were chosen. -/
def Genealogy.countsJson (t : Genealogy) : Json :=
  .object
    [("orphans", .nat t.orphanCount),
      ("rules", .object (t.ruleCounts.map fun (rule, n) => (rule.name, .nat n)))]

namespace Atlas

variable (a : Atlas)

def summary (t : TrimmedMap) : Json :=
  Json.canonical <| .object
    [("graph_stats", a.network.countsJson),
      ("degree_stats", a.degrees.json),
      ("trim", t.countsJson),
      ("genealogy", a.genealogy.countsJson),
      ("warnings", .list (a.loops.map loopWarning))]

/-! ### The table -/

def tableRow? (kept : KeptOpinion) : Option Json :=
  a.network.opinions[kept.index]?.map fun o =>
    .object
      [("id", o.id.json),
        ("position", .nat kept.position),
        ("case_name_short", .text o.record.displayName),
        ("absolute_url", .option .text o.record.absoluteUrl),
        ("citation_count", .option .nat o.record.citationCount),
        ("order", .text kept.degree.label),
        ("date_filed", .text o.date.text)]

/-- The table of the kept opinions. -/
def table (t : TrimmedMap) : Json :=
  Json.canonical <| .object [("opinions", .list (t.opinions.filterMap a.tableRow?))]

end Atlas

/-! ### The drawing -/

/-- A level: the number of a row, or a vote split. -/
def Level.json : Level → Json
  | .row n => .nat n
  | .split label => .text label

/-- A point. One without a link to its opinion has no member for it. -/
def ChartPoint.json (p : ChartPoint) : Json :=
  .object <|
    [("id", p.id.json),
      ("x", .text p.x),
      ("y", p.y.json),
      ("c", .text p.degree.label),
      ("size", .nat p.size),
      ("position", .nat p.position),
      ("label", .text p.label)] ++
    (p.url.map fun url => ("url", Json.text url)).toList

def SegmentEnd.json (e : SegmentEnd) : Json := .object [("x", .text e.x), ("y", e.y.json)]

def Segment.json (s : Segment) : Json :=
  .object
    [("from", s.source.json),
      ("to", s.target.json),
      ("c", .text s.colour),
      ("o", .single s.opacity)]

def Chart.json (c : Chart) : Json :=
  .object
    [("mode", .text c.mode.name),
      ("limit", .nat c.limit),
      ("y_domain", .list (c.levels.map Level.json)),
      ("legend", .list (c.legend.map .text)),
      ("points", .list (c.points.map ChartPoint.json)),
      ("segments", .list (c.segments.map Segment.json))]

/-! ### The files -/

/-- The names and texts of the files, in the order in which they are written. -/
def Atlas.reportFiles (a : Atlas) (t : TrimmedMap) (c : Chart) : List (String × String) :=
  [("summary.json", (a.summary t).pretty),
    ("nodes.json", (a.table t).pretty),
    ("chart.json", c.json.pretty)]

end Precedent
