import Precedent.Chart.Spread
import Precedent.Trim

/-!
# Precedent.Chart.Basic

**Laying out a trimmed map.** Every kept opinion becomes a point: its filing date across, and up a
row of the spread or, in Spaeth mode, its vote split. Every kept link becomes a segment between two
points. A segment is as opaque as the citation behind it asks for, whichever end makes it, or else
as the settings say. It is coloured by the degree of the link; in Spaeth mode by the decision of
the cited opinion, so there a mutual link has a segment for each of its two citations.
-/

namespace Precedent

/-- Where a point stands vertically. -/
inductive Level where
  | row (n : Nat)
  | split (label : String)
deriving DecidableEq, Repr

/-- The vote splits from top to bottom of a chart in Spaeth mode. -/
def spaethRows : List String :=
  ["L5-4", "L6-3", "L7-2", "L8-1", "N9-0", "C8-1", "C7-2", "C6-3", "C5-4", "Unk"]

/-- The point of an opinion. -/
structure ChartPoint where
  id : OpinionId
  /-- The filing date. -/
  x : String
  y : Level
  degree : Degree
  /-- How often the opinion is cited; the size of its marker. -/
  size : Nat
  position : Nat
  label : String
  url : Option String
deriving DecidableEq, Repr

/-- An end of a segment. -/
structure SegmentEnd where
  x : String
  y : Level
deriving DecidableEq, Repr

/-- The line of a link. -/
structure Segment where
  source : SegmentEnd
  target : SegmentEnd
  /-- The label of the degree or of the decision that colours the line. -/
  colour : String
  opacity : Opacity
deriving DecidableEq, Repr

/-- A chart. -/
structure Chart where
  mode : Mode
  limit : Nat
  /-- The levels that points may have, from top to bottom. -/
  levels : List Level
  legend : List String
  points : List ChartPoint
  segments : List Segment
deriving DecidableEq, Repr

/-- Where lines meet a point. -/
def ChartPoint.anchor (p : ChartPoint) : SegmentEnd := ⟨p.x, p.y⟩

namespace Atlas

variable (a : Atlas)

def levelOf (t : TrimmedMap) (o : Opinion) (position : Nat) : Level :=
  match t.mode with
  | .spaeth => .split o.record.voteSplit
  | .degrees | .genealogy =>
    let count := t.opinions.length
    .row ((Spread.ofCount count).row position count)

def point? (t : TrimmedMap) (kept : KeptOpinion) : Option ChartPoint :=
  a.network.opinions[kept.index]?.map fun o =>
    { id := o.id
      x := o.date.text
      y := levelOf t o kept.position
      degree := kept.degree
      size := o.record.citationCount.getD (a.network.inDegree kept.index)
      position := kept.position
      label := o.record.displayName
      url := o.record.absoluteUrl }

/-- The points of all kept opinions, each with its index in the network. -/
def pointTable (t : TrimmedMap) : List (Nat × ChartPoint) :=
  t.opinions.filterMap fun kept => (a.point? t kept).map fun p => (kept.index, p)

/-- The opacity that one opinion's citation of another asks for. -/
def opacityOf? (citing cited : Nat) : Option Opacity := do
  let source ← a.network.opinions[citing]?
  let target ← a.network.opinions[cited]?
  source.record.cited.opacity? target.id

/-- The opacity of the line between two opinions. -/
def opacityBetween (settings : Settings) (source target : Nat) : Opacity :=
  (a.opacityOf? source target <|> a.opacityOf? target source).getD settings.edgeOpacity

/-- What colours a line to an opinion. -/
def colourTo (t : TrimmedMap) (target : Nat) (degree : Degree) : String :=
  match t.mode with
  | .spaeth =>
    (a.network.opinions[target]?.map fun o => o.record.directionLabel).getD
      Direction.unknown.label
  | .degrees | .genealogy => degree.label

/-- The line from one opinion to another, if both have points. -/
def segment? (t : TrimmedMap) (settings : Settings) (points : List (Nat × ChartPoint))
    (source target : Nat) (degree : Degree) : Option Segment := do
  let p ← points.lookup source
  let q ← points.lookup target
  pure
    { source := p.anchor
      target := q.anchor
      colour := a.colourTo t target degree
      opacity := a.opacityBetween settings source target }

/-- Whether a link stands for two citations. -/
def isMutual (slot : Nat) : Bool := (a.network.links[slot]?.map Link.isMutual).getD false

/-- The lines of a kept link. -/
def segmentsOf (t : TrimmedMap) (settings : Settings) (points : List (Nat × ChartPoint))
    (l : KeptLink) : List Segment :=
  let line := (a.segment? t settings points l.source l.target l.degree).toList
  if t.mode = .spaeth && a.isMutual l.slot then
    line ++ (a.segment? t settings points l.target l.source l.degree).toList
  else line

/-- The levels of a chart, from top to bottom. -/
def levels (t : TrimmedMap) : List Level :=
  match t.mode with
  | .spaeth => spaethRows.map .split
  | .degrees | .genealogy =>
    (List.range' 1 (Spread.ofCount t.opinions.length).topRow).reverse.map .row

/-- The legend of a chart: the decisions up to the limit, or the degrees up to the farthest. -/
def legend (t : TrimmedMap) : List String :=
  match t.mode with
  | .spaeth => (Direction.all.take t.limit).map Direction.label
  | .degrees | .genealogy =>
    (Degree.all.filter fun d => d ≤ a.degrees.max).map Degree.label

def chart (t : TrimmedMap) (settings : Settings) : Chart :=
  let points := a.pointTable t
  { mode := t.mode
    limit := t.limit
    levels := levels t
    legend := a.legend t
    points := points.map Prod.snd
    segments := t.links.flatMap (a.segmentsOf t settings points) }

end Atlas

end Precedent
