import MarkdownPrep.Chart.Decode

/-!
# Settings

A line `key: value` of a chart block is one setting. `Setting.read?` decides what it sets; keys
are taken without regard to letter case, and a line with an unknown key or a value that does not
fit its key sets nothing. `Description.apply` carries a setting out.
-/

namespace MarkdownPrep.Chart

/-- One thing that a line of a chart block sets. -/
inductive Setting where
  | kind (k : Kind)
  | title (s : Text)
  | description (s : Text)
  | xAxisLabel (s : Text)
  | yAxisLabel (s : Text)
  | yAxisRightLabel (s : Text)
  | xKey (s : Text)
  | stacked (b : Bool)
  | showLegend (b : Bool)
  | showGrid (b : Bool)
  | height (x : Binary64)
  | width (x : Binary64)
  /-- The parts of the number style that are given are set. -/
  | numbers (f : NumberStyle)
  | colors (ts : List Text)
  | labels (ts : List Text)
  | dataKeys (ts : List Text)
  | data (rows : List Record)
  | series (ss : List Series)
  | referenceLines (ls : List ReferenceLine)
  deriving Repr

/-- Reads a flag: anything but `true` means false. -/
def readFlag (value : Text) : Bool := Text.eqIgnoringCase value "true".toList

/-- Reads a length: a finite number, with `px` after it or not. -/
def readLength? (value : Text) : Option Binary64 :=
  let value := Text.trim value
  let count := value.length - 2
  let value :=
    if 2 ≤ value.length && Text.eqIgnoringCase (value.drop count) "px".toList then
      value.take count
    else value
  Text.toBinary64? (Text.trim value)

/-- A text without one quote of either kind at each end. -/
def unquote (item : Text) : Text :=
  let isQuote := fun c => c = '"' || c = '\''
  let item := match item with
    | c :: s => if isQuote c then s else item
    | [] => []
  if item.getLast?.any isQuote then item.dropLast else item

/-- The text between square brackets, or the text itself if it is not in brackets. -/
def stripBrackets (s : Text) : Text :=
  match s with
  | '[' :: t => if t.getLast? = some ']' then t.dropLast else s
  | _ => s

/-- Reads a list of texts: a JSON array of strings, or items with commas between, in brackets or
not. Quotes around an item are dropped, and so are empty items. -/
def readList (value : Text) : List Text :=
  let value := Text.trim value
  if value.isEmpty then []
  else match Json.read? (.list .text) value with
    | some items => items
    | none =>
      ((Text.splitOn ',' (stripBrackets value)).map fun item => unquote (Text.trim item)).filter
        (!·.isEmpty)

/-- The greatest number of decimal places that can be set. -/
def maxPlaces : Nat := (1 <<< 32) - 1

/-- Reads a number of decimal places: a length that is not below zero, rounded. -/
def readPlaces? (value : Text) : Option Nat :=
  (readLength? value).bind fun x =>
    if x.isNegative then none else some (min x.roundHalfUp maxPlaces)

/-- Reads a number style: a JSON object, or the name of a format. -/
def readStyle? (value : Text) : Option NumberStyle :=
  Json.read? NumberStyle.decode value <|>
    (namedIn? NumberFormat.names value).map fun f => { format := some f }

/-- Reads rows of data. -/
def readRecords? (value : Text) : Option (List Record) := Json.read? (.list .record) value

/-- The keys of settings, in small letters, with the readers of their values. -/
def Setting.readers : List (Text × (Text → Option Setting)) := [
  ("type".toList, fun v => (namedIn? Kind.names v).map .kind),
  ("title".toList, fun v => some (.title v)),
  ("description".toList, fun v => some (.description v)),
  ("xaxislabel".toList, fun v => some (.xAxisLabel v)),
  ("yaxislabel".toList, fun v => some (.yAxisLabel v)),
  ("yaxisrightlabel".toList, fun v => some (.yAxisRightLabel v)),
  ("xkey".toList, fun v => some (.xKey v)),
  ("stacked".toList, fun v => some (.stacked (readFlag v))),
  ("showlegend".toList, fun v => some (.showLegend (readFlag v))),
  ("showgrid".toList, fun v => some (.showGrid (readFlag v))),
  ("height".toList, fun v => (readLength? v).map .height),
  ("width".toList, fun v => (readLength? v).map .width),
  ("valueformat".toList, fun v =>
    (namedIn? NumberFormat.names v).map fun f => .numbers { format := some f }),
  ("valueprefix".toList, fun v => some (.numbers { before := some v })),
  ("valuesuffix".toList, fun v => some (.numbers { after := some v })),
  ("valuecurrency".toList, fun v => some (.numbers { currency := some v })),
  ("valuedecimals".toList, fun v =>
    (readPlaces? v).map fun n => .numbers { places := some n }),
  ("formatter".toList, fun v => (readStyle? v).map .numbers),
  ("colors".toList, fun v => some (.colors (readList v))),
  ("labels".toList, fun v => some (.labels (readList v))),
  ("datakeys".toList, fun v => some (.dataKeys (readList v))),
  ("data".toList, fun v => (readRecords? v).map .data),
  ("series".toList, fun v => (Json.read? (.list Series.decode) v).map .series),
  ("referencelines".toList, fun v =>
    (Json.read? (.list ReferenceLine.decode) v).map .referenceLines)]

/-- The form in which keys are compared. -/
def Setting.keyOf (key : Text) : Text := Text.lower (Text.trim key)

/-- Reads what a line with a key and a value sets, if anything. -/
def Setting.read? (key value : Text) : Option Setting :=
  let value := Text.trim value
  if value.isEmpty then none else (readers.lookup (keyOf key)).bind (· value)

/-- The description with one thing set. -/
def Description.apply (c : Description) : Setting → Description
  | .kind k => { c with kind := some k }
  | .title s => { c with title := some s }
  | .description s => { c with description := some s }
  | .xAxisLabel s => { c with xAxisLabel := some s }
  | .yAxisLabel s => { c with yAxisLabel := some s }
  | .yAxisRightLabel s => { c with yAxisRightLabel := some s }
  | .xKey s => { c with xKey := some s }
  | .stacked b => { c with stacked := some b }
  | .showLegend b => { c with showLegend := some b }
  | .showGrid b => { c with showGrid := some b }
  | .height x => { c with height := some x }
  | .width x => { c with width := some x }
  | .numbers f => { c with numbers := some ((c.numbers.getD {}).merge f) }
  | .colors ts => { c with colors := some ts }
  | .labels ts => { c with labels := some ts }
  | .dataKeys ts => { c with dataKeys := some ts }
  | .data rows => { c with data := rows }
  | .series ss => { c with series := some ss }
  | .referenceLines ls => { c with referenceLines := some ls }

/-- The description after the line `key: value`. -/
def Description.set (c : Description) (key value : Text) : Description :=
  match Setting.read? key value with
  | some s => c.apply s
  | none => c

/-- The description after a line. A line without a colon sets nothing. -/
def Description.setLine (c : Description) (line : Text) : Description :=
  match Text.splitOnce? ':' line with
  | some (key, value) => c.set key value
  | none => c

end MarkdownPrep.Chart
