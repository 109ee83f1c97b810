import MarkdownPrep.Chart.Description

/-!
# Chart descriptions as JSON

Chart descriptions and their parts as JSON values. Fields come in a fixed order, and those that
are not given are left out.
-/

namespace MarkdownPrep.Chart

open Json

/-- A member that is there when the field is given. -/
def member (name : String) (encode : α → Value) (field : Option α) : Option (Text × Value) :=
  field.map fun a => (name.toList, encode a)

/-- A number as a JSON value. -/
def encodeFloat (x : Binary64) : Value := .number (.float x)

/-- A natural number as a JSON value. -/
def encodeNat (n : Nat) : Value := .number (.int n)

/-- A list of texts as a JSON value. -/
def encodeTexts (ts : List Text) : Value := .array (ts.map .string)

/-- A mark as a JSON value. -/
def Mark.encode (m : Mark) : Value := .string (nameIn names m)

/-- A side as a JSON value. -/
def Side.encode (a : Side) : Value := .string (nameIn names a)

/-- The place of a label as a JSON value. -/
def LabelPlace.encode (p : LabelPlace) : Value := .string (nameIn names p)

/-- A number format as a JSON value. -/
def NumberFormat.encode (f : NumberFormat) : Value := .string (nameIn names f)

/-- The members of a series. -/
def Series.members (s : Series) : List (Option (Text × Value)) := [
  member "key" .string s.key,
  member "name" .string s.name,
  member "type" Mark.encode s.mark,
  member "color" .string s.color,
  member "yAxisId" Side.encode s.axis,
  member "stackId" .string s.stack,
  member "strokeWidth" encodeFloat s.strokeWidth,
  member "dot" .bool s.dot,
  member "opacity" encodeFloat s.opacity]

/-- A series as a JSON value. -/
def Series.encode (s : Series) : Value := .ofMembers s.members

/-- The members of a reference line. -/
def ReferenceLine.members (l : ReferenceLine) : List (Option (Text × Value)) := [
  member "x" id l.x,
  member "y" id l.y,
  member "label" .string l.label,
  member "color" .string l.color,
  member "strokeDasharray" .string l.dashes,
  member "position" LabelPlace.encode l.place]

/-- A reference line as a JSON value. -/
def ReferenceLine.encode (l : ReferenceLine) : Value := .ofMembers l.members

/-- The members of a number style. -/
def NumberStyle.members (f : NumberStyle) : List (Option (Text × Value)) := [
  member "format" NumberFormat.encode f.format,
  member "currency" .string f.currency,
  member "decimals" encodeNat f.places,
  member "minimumFractionDigits" encodeNat f.leastPlaces,
  member "maximumFractionDigits" encodeNat f.greatestPlaces,
  member "prefix" .string f.before,
  member "suffix" .string f.after]

/-- A number style as a JSON value. -/
def NumberStyle.encode (f : NumberStyle) : Value := .ofMembers f.members

/-- The members of a chart description. The data are there even when empty. -/
def Description.members (c : Description) : List (Option (Text × Value)) := [
  member "type" (fun k => .string (Kind.name k)) c.kind,
  member "data" (fun rows => .array (rows.map .object)) (some c.data),
  member "title" .string c.title,
  member "description" .string c.description,
  member "xKey" .string c.xKey,
  member "dataKeys" encodeTexts c.dataKeys,
  member "colors" encodeTexts c.colors,
  member "labels" encodeTexts c.labels,
  member "series" (fun ss => .array (ss.map Series.encode)) c.series,
  member "referenceLines" (fun ls => .array (ls.map ReferenceLine.encode)) c.referenceLines,
  member "formatter" NumberStyle.encode c.numbers,
  member "stacked" .bool c.stacked,
  member "showLegend" .bool c.showLegend,
  member "showGrid" .bool c.showGrid,
  member "xAxisLabel" .string c.xAxisLabel,
  member "yAxisLabel" .string c.yAxisLabel,
  member "yAxisRightLabel" .string c.yAxisRightLabel,
  member "width" encodeFloat c.width,
  member "height" encodeFloat c.height]

/-- A chart description as a JSON value. -/
def Description.encode (c : Description) : Value := .ofMembers c.members

end MarkdownPrep.Chart
