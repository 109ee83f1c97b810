import MarkdownPrep.Chart.Description

/-!
# Chart errors

Why a block is not a chart that can be drawn. The messages are shown to the reader next to the
source of the block.
-/

namespace MarkdownPrep.Chart

/-- Why a block is not a chart that can be drawn. -/
inductive Error where
  /-- The block is not JSON of the shape of a chart description. -/
  | malformedJson
  /-- The tag of the block, in small letters, is no chart tag. -/
  | unsupportedTag (tag : Text)
  /-- The block has no table. -/
  | missingHeader
  /-- The header of the table names no columns. -/
  | emptyHeader
  | noData
  | noKind
  deriving DecidableEq, Repr

/-- The text of an error. -/
def Error.message : Error → Text
  | malformedJson => "Failed to parse chart configuration".toList
  | unsupportedTag tag =>
    "Failed to parse chart configuration: unsupported chart tag `".toList ++ tag ++ ['`']
  | missingHeader => "Failed to parse chart configuration: missing table header".toList
  | emptyHeader =>
    "Failed to parse chart configuration: table header has no column names".toList
  | noData => "Chart data is empty".toList
  | noKind => "Chart type is required (bar, line, pie, area, scatter, composed)".toList

/-- Checks what a renderer cannot do without: data and the kind of the chart. -/
def Description.check (c : Description) : Except Error Unit :=
  if c.data.isEmpty then .error .noData
  else if c.kind.isNone then .error .noKind
  else .ok ()

end MarkdownPrep.Chart
