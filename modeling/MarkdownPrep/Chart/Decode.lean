import MarkdownPrep.Chart.Description
import MarkdownPrep.Json.Decode

/-!
# Chart descriptions from JSON

The decoders of chart descriptions and their parts. Every field may be missing.
-/

namespace MarkdownPrep.Chart

open Json

/-- The field names of a series, in order. -/
def Series.fieldNames : List Text :=
  ["key".toList, "name".toList, "type".toList, "color".toList, "yAxisId".toList,
    "stackId".toList, "strokeWidth".toList, "dot".toList, "opacity".toList]

/-- Decodes a series. -/
def Series.decode : Decoder Series := fun depth t => do
  let f ← Fields.decode fieldNames depth t
  return {
    key := ← f.get? "key" .text
    name := ← f.get? "name" .text
    mark := ← f.get? "type" (.named Mark.names)
    color := ← f.get? "color" .text
    axis := ← f.get? "yAxisId" (.named Side.names)
    stack := ← f.get? "stackId" .text
    strokeWidth := ← f.get? "strokeWidth" .float
    dot := ← f.get? "dot" .bool
    opacity := ← f.get? "opacity" .float }

/-- The field names of a reference line, in order. -/
def ReferenceLine.fieldNames : List Text :=
  ["x".toList, "y".toList, "label".toList, "color".toList, "strokeDasharray".toList,
    "position".toList]

/-- Decodes a reference line. -/
def ReferenceLine.decode : Decoder ReferenceLine := fun depth t => do
  let f ← Fields.decode fieldNames depth t
  return {
    x := ← f.get? "x" .anyValue
    y := ← f.get? "y" .anyValue
    label := ← f.get? "label" .text
    color := ← f.get? "color" .text
    dashes := ← f.get? "strokeDasharray" .text
    place := ← f.get? "position" (.named LabelPlace.names) }

/-- The field names of a number style, in order. -/
def NumberStyle.fieldNames : List Text :=
  ["format".toList, "currency".toList, "decimals".toList, "minimumFractionDigits".toList,
    "maximumFractionDigits".toList, "prefix".toList, "suffix".toList]

/-- Decodes a number style. -/
def NumberStyle.decode : Decoder NumberStyle := fun depth t => do
  let f ← Fields.decode fieldNames depth t
  return {
    format := ← f.get? "format" (.named NumberFormat.names)
    currency := ← f.get? "currency" .text
    places := ← f.get? "decimals" .nat32
    leastPlaces := ← f.get? "minimumFractionDigits" .nat32
    greatestPlaces := ← f.get? "maximumFractionDigits" .nat32
    before := ← f.get? "prefix" .text
    after := ← f.get? "suffix" .text }

/-- The field names of a chart description, in order. -/
def Description.fieldNames : List Text :=
  ["type".toList, "data".toList, "title".toList, "description".toList, "xKey".toList,
    "dataKeys".toList, "colors".toList, "labels".toList, "series".toList,
    "referenceLines".toList, "formatter".toList, "stacked".toList, "showLegend".toList,
    "showGrid".toList, "xAxisLabel".toList, "yAxisLabel".toList, "yAxisRightLabel".toList,
    "width".toList, "height".toList]

/-- Decodes a chart description. -/
def Description.decode : Decoder Description := fun depth t => do
  let f ← Fields.decode fieldNames depth t
  return {
    kind := ← f.get? "type" (.named Kind.names)
    data := ← f.get "data" (.list .record) []
    title := ← f.get? "title" .text
    description := ← f.get? "description" .text
    xKey := ← f.get? "xKey" .text
    dataKeys := ← f.get? "dataKeys" (.list .text)
    colors := ← f.get? "colors" (.list .text)
    labels := ← f.get? "labels" (.list .text)
    series := ← f.get? "series" (.list Series.decode)
    referenceLines := ← f.get? "referenceLines" (.list ReferenceLine.decode)
    numbers := ← f.get? "formatter" NumberStyle.decode
    stacked := ← f.get? "stacked" .bool
    showLegend := ← f.get? "showLegend" .bool
    showGrid := ← f.get? "showGrid" .bool
    xAxisLabel := ← f.get? "xAxisLabel" .text
    yAxisLabel := ← f.get? "yAxisLabel" .text
    yAxisRightLabel := ← f.get? "yAxisRightLabel" .text
    width := ← f.get? "width" .float
    height := ← f.get? "height" .float }

end MarkdownPrep.Chart
