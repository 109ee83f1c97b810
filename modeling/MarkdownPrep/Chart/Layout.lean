import MarkdownPrep.Chart.Encode

/-!
# Chart layouts

What a renderer draws: the description with every default filled in. The labels of the axes
are inferred from the names of the series on them unless they are given.
-/

namespace MarkdownPrep.Chart

open Json

/-- A series with every default filled in. -/
structure DrawnSeries where
  key : Text
  name : Text
  mark : Mark
  color : Text
  axis : Side
  stack : Option Text
  strokeWidth : Binary64
  dot : Bool
  opacity : Binary64
  deriving DecidableEq, Repr

/-- A reference line with every default filled in. -/
structure DrawnLine where
  x : Option Value
  y : Option Value
  label : Option Text
  stroke : Text
  labelColor : Text
  dashes : Text
  place : LabelPlace
  deriving Repr

/-- Everything that a renderer needs besides the data. -/
structure Layout where
  height : Binary64
  width : Option Binary64
  showLegend : Bool
  showGrid : Bool
  leftAxisLabel : Text
  rightAxisLabel : Option Text
  series : List DrawnSeries
  referenceLines : List DrawnLine
  deriving Repr

/-- The series that a description asks for: the ones it lists, else one for each data key, else
one of the key `value`. -/
def Description.baseSeries (c : Description) : List Series :=
  match c.series, c.dataKeys with
  | some (s :: ss), _ => s :: ss
  | _, some (k :: ks) => (k :: ks).map fun key => { key := some key }
  | _, _ => [{ key := some "value".toList }]

/-- The series with their keys, those without a key left out. -/
def keyedSeries (ss : List Series) : List (Text × Series) :=
  ss.filterMap fun s => (s.key.filter (!·.isEmpty)).map (·, s)

/-- The width of strokes by mark. -/
def defaultStrokeWidth : Mark → Binary64
  | .line => .ofNat 2
  | _ => .ofNat 1

/-- The opacity by mark. -/
def defaultOpacity : Mark → Binary64
  | .area => .ofRatio 55 100
  | _ => .ofNat 1

/-- The series of key `key` and index `i` with every default filled in. Only the series of a
composed chart have marks of their own. -/
def Description.drawSeries (c : Description) (i : Nat) (key : Text) (s : Series) : DrawnSeries :=
  let kind := c.kind.getD .bar
  let mark := if kind = .composed then s.mark.getD kind.mark else kind.mark
  { key
    name := s.name.getD key
    mark
    color := s.color.getD (c.palette[i % c.palette.length]?.getD [])
    axis := s.axis.getD .left
    stack := s.stack <|> if c.isStacked then some "stack".toList else none
    strokeWidth := s.strokeWidth.getD (defaultStrokeWidth mark)
    dot := s.dot.getD true
    opacity := s.opacity.getD (defaultOpacity mark) }

/-- The series that are drawn. -/
def Description.drawnSeries (c : Description) : List DrawnSeries :=
  (keyedSeries c.baseSeries).zipIdx.map fun ((key, s), i) => c.drawSeries i key s

/-- The name under which a series is shown. -/
def DrawnSeries.shownName (s : DrawnSeries) : Text := if s.name.isEmpty then s.key else s.name

/-- The label of an axis by the series on it: their names, each once. -/
def inferredLabel? (ss : List DrawnSeries) (axis : Side) : Option Text :=
  let names := (((ss.filter (·.axis = axis)).map DrawnSeries.shownName).filter
    (!·.isEmpty)).eraseDups
  if names.isEmpty then none else some (Text.join " / ".toList names)

/-- The label of an axis without series. -/
def emptyAxisLabel : Text := "Value".toList

/-- A reference line with every default filled in. -/
def ReferenceLine.draw (l : ReferenceLine) : DrawnLine where
  x := l.x
  y := l.y
  label := l.label
  stroke := l.color.getD "#9ca3af".toList
  labelColor := l.color.getD "#4b5563".toList
  dashes := (l.dashes.filter (!·.isEmpty)).getD "4 4".toList
  place := l.place.getD .atEnd

/-- The layout of a chart. A line without a place is left out, and so is the label of a right
axis that no series uses. -/
def Description.layout (c : Description) : Layout :=
  let series := c.drawnSeries
  { height := (c.height.filter Binary64.isPositive).getD (.ofNat 320)
    width := c.width
    showLegend := c.showLegend.getD (c.kind = some .pie || 1 < series.length)
    showGrid := c.showGrid.getD true
    leftAxisLabel := (c.yAxisLabel <|> inferredLabel? series .left).getD emptyAxisLabel
    rightAxisLabel :=
      if series.any (·.axis = .right) then
        c.yAxisRightLabel <|> inferredLabel? series .right
      else none
    series
    referenceLines :=
      ((c.referenceLines.getD []).filter fun l => l.x.isSome || l.y.isSome).map ReferenceLine.draw }

/-- A series as a JSON value. -/
def DrawnSeries.encode (s : DrawnSeries) : Value := .ofMembers [
  member "key" .string (some s.key),
  member "name" .string (some s.name),
  member "type" Mark.encode (some s.mark),
  member "color" .string (some s.color),
  member "yAxisId" Side.encode (some s.axis),
  member "stackId" .string s.stack,
  member "strokeWidth" encodeFloat (some s.strokeWidth),
  member "dot" .bool (some s.dot),
  member "opacity" encodeFloat (some s.opacity)]

/-- A reference line as a JSON value. -/
def DrawnLine.encode (l : DrawnLine) : Value := .ofMembers [
  member "x" id l.x,
  member "y" id l.y,
  member "label" .string l.label,
  member "stroke" .string (some l.stroke),
  member "labelColor" .string (some l.labelColor),
  member "strokeDasharray" .string (some l.dashes),
  member "position" LabelPlace.encode (some l.place)]

/-- A layout as a JSON value. -/
def Layout.encode (l : Layout) : Value := .ofMembers [
  member "height" encodeFloat (some l.height),
  member "width" encodeFloat l.width,
  member "showLegend" .bool (some l.showLegend),
  member "showGrid" .bool (some l.showGrid),
  member "leftAxisLabel" .string (some l.leftAxisLabel),
  member "rightAxisLabel" .string l.rightAxisLabel,
  member "series" (fun ss => .array (ss.map DrawnSeries.encode)) (some l.series),
  member "referenceLines" (fun ls => .array (ls.map DrawnLine.encode)) (some l.referenceLines)]

end MarkdownPrep.Chart
