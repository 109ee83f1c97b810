import MarkdownPrep.Chart.Lines
import MarkdownPrep.Chart.Table

/-!
# The dialects of chart blocks

A block tagged `chart-json` is a JSON document; one tagged `chart` or `chart-table` is a table if
any of its lines has a bar, and lines of settings if none has.
-/

namespace MarkdownPrep.Chart

/-- The ways to write a chart block. -/
inductive Dialect where
  | json
  | table
  | lines
  deriving DecidableEq, Repr

/-- The tags of chart blocks. -/
inductive Tag where
  | chart
  | chartJson
  | chartTable
  deriving DecidableEq, Repr

/-- The name of a tag. -/
def Tag.name : Tag → Text
  | chart => "chart".toList
  | chartJson => "chart-json".toList
  | chartTable => "chart-table".toList

/-- The tag that a text names, letter case and white space around it aside. -/
def Tag.ofText? (s : Text) : Option Tag :=
  [chart, chartJson, chartTable].find? fun tag => tag.name == Text.lower (Text.trim s)

/-- The dialect of a block. -/
def Dialect.ofBlock (text tag : Text) : Except Error Dialect :=
  match Tag.ofText? tag with
  | some .chartJson => .ok .json
  | some .chart | some .chartTable =>
    if (Text.lines (Text.trim text)).any hasBar then .ok .table else .ok .lines
  | none => .error (.unsupportedTag (Text.lower (Text.trim tag)))

/-- Reads a chart block. The result need not be complete; see `Description.check`. -/
def Description.read (text tag : Text) : Except Error Description := do
  match ← Dialect.ofBlock text tag with
  | .json =>
    match Json.read? Description.decode text with
    | some c => .ok c
    | none => .error .malformedJson
  | .table => readTable text
  | .lines => .ok (readLines text)

theorem Description.read_chartJson (text : Text) : Description.read text Tag.chartJson.name =
    match Json.read? Description.decode text with
    | some c => .ok c
    | none => .error .malformedJson := rfl

end MarkdownPrep.Chart
