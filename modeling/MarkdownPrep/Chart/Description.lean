import MarkdownPrep.Binary64.Read
import MarkdownPrep.Json.Value
import MarkdownPrep.Text.Blank

/-!
# Chart descriptions

A chart as its block describes it. Nearly every part may be missing; `Chart.Layout` fills in what
a renderer needs, and `Description.check` tells whether the chart can be drawn at all.
-/

namespace MarkdownPrep.Chart

/-- The kinds of charts. -/
inductive Kind where
  | bar
  | line
  | pie
  | area
  | scatter
  /-- Series of different marks in one chart. -/
  | composed
  deriving DecidableEq, Repr

/-- What the points of a series are drawn with. -/
inductive Mark where
  | bar
  | line
  | area
  | scatter
  deriving DecidableEq, Repr

/-- The sides on which a value axis may stand. -/
inductive Side where
  | left
  | right
  deriving DecidableEq, Repr

/-- Where the label of a reference line stands. -/
inductive LabelPlace where
  | atStart
  | atMiddle
  | atEnd
  deriving DecidableEq, Repr

/-- The ways to show a number. -/
inductive NumberFormat where
  | number
  | compact
  | currency
  | percent
  deriving DecidableEq, Repr

/-- The kinds of charts by name. -/
def Kind.names : List (Text × Kind) :=
  [("bar".toList, bar), ("line".toList, line), ("pie".toList, pie), ("area".toList, area),
    ("scatter".toList, scatter), ("composed".toList, composed)]

/-- The marks by name. -/
def Mark.names : List (Text × Mark) :=
  [("bar".toList, bar), ("line".toList, line), ("area".toList, area),
    ("scatter".toList, scatter)]

/-- The sides by name. -/
def Side.names : List (Text × Side) := [("left".toList, left), ("right".toList, right)]

/-- The places of labels by name. -/
def LabelPlace.names : List (Text × LabelPlace) :=
  [("start".toList, atStart), ("middle".toList, atMiddle), ("end".toList, atEnd)]

/-- The number formats by name. -/
def NumberFormat.names : List (Text × NumberFormat) :=
  [("number".toList, number), ("compact".toList, compact), ("currency".toList, currency),
    ("percent".toList, percent)]

/-- The name of a value in a table of names. -/
def nameIn [BEq α] (names : List (Text × α)) (a : α) : Text :=
  ((names.find? fun e => e.2 == a).map (·.1)).getD []

/-- The value that a text names in a table, letter case and white space around it aside. -/
def namedIn? (names : List (Text × α)) (s : Text) : Option α :=
  names.lookup (Text.lower (Text.trim s))

/-- The name of a kind of charts. -/
def Kind.name (t : Kind) : Text := nameIn Kind.names t

/-- The mark of every series of a chart that is not composed. -/
def Kind.mark : Kind → Mark
  | line => .line
  | area => .area
  | scatter => .scatter
  | bar | pie | composed => .bar

/-- One row of data: column names with values, in column order, no name twice. -/
abbrev Record := List (Text × Json.Value)

/-- How one series is drawn, as far as the block says. -/
structure Series where
  key : Option Text := none
  name : Option Text := none
  mark : Option Mark := none
  color : Option Text := none
  axis : Option Side := none
  stack : Option Text := none
  strokeWidth : Option Binary64 := none
  dot : Option Bool := none
  opacity : Option Binary64 := none
  deriving DecidableEq, Repr

/-- A line across the chart at a number or category of either axis. -/
structure ReferenceLine where
  x : Option Json.Value := none
  y : Option Json.Value := none
  label : Option Text := none
  color : Option Text := none
  dashes : Option Text := none
  place : Option LabelPlace := none
  deriving Repr

/-- How numbers are shown, as far as the block says. -/
structure NumberStyle where
  format : Option NumberFormat := none
  /-- A currency code. -/
  currency : Option Text := none
  /-- The exact number of decimal places, which goes before the bounds on it. -/
  places : Option Nat := none
  leastPlaces : Option Nat := none
  greatestPlaces : Option Nat := none
  before : Option Text := none
  after : Option Text := none
  deriving DecidableEq, Repr

/-- The style with every part that `other` gives taken from there. -/
def NumberStyle.merge (f other : NumberStyle) : NumberStyle where
  format := other.format <|> f.format
  currency := other.currency <|> f.currency
  places := other.places <|> f.places
  leastPlaces := other.leastPlaces <|> f.leastPlaces
  greatestPlaces := other.greatestPlaces <|> f.greatestPlaces
  before := other.before <|> f.before
  after := other.after <|> f.after

/-- A chart as its block describes it. -/
structure Description where
  kind : Option Kind := none
  data : List Record := []
  title : Option Text := none
  description : Option Text := none
  xKey : Option Text := none
  dataKeys : Option (List Text) := none
  colors : Option (List Text) := none
  labels : Option (List Text) := none
  series : Option (List Series) := none
  referenceLines : Option (List ReferenceLine) := none
  numbers : Option NumberStyle := none
  stacked : Option Bool := none
  showLegend : Option Bool := none
  showGrid : Option Bool := none
  xAxisLabel : Option Text := none
  yAxisLabel : Option Text := none
  yAxisRightLabel : Option Text := none
  width : Option Binary64 := none
  height : Option Binary64 := none
  deriving Repr

/-- The colours of a chart that names none. -/
def standardColors : List Text :=
  ["#3b82f6".toList, "#8b5cf6".toList, "#ec4899".toList, "#f59e0b".toList, "#10b981".toList,
    "#06b6d4".toList, "#6366f1".toList, "#ef4444".toList]

namespace Description

/-- The colours to cycle through. -/
def palette (c : Description) : List Text :=
  match c.colors with
  | some (color :: colors) => color :: colors
  | _ => standardColors

/-- True when the series are stacked. -/
def isStacked (c : Description) : Bool := c.stacked.getD false

/-- The description with the standard colours if it names none. -/
def withColors (c : Description) : Description := { c with colors := some c.palette }

end Description

end MarkdownPrep.Chart
