import MarkdownPrep.Chart.Error
import MarkdownPrep.Chart.Setting
import MarkdownPrep.Text.Lines

/-!
# Charts as tables

In a chart block with a table, the first line with a bar is the header, the next one the
separator, and every further one a row. The lines above the table are settings.

Cells that are numbers become numbers; an empty cell leaves its column out of the record, and a
row of empty cells is no row.
-/

namespace MarkdownPrep.Chart

/-- True for the lines of a table. -/
def hasBar (line : Text) : Bool := line.contains '|'

/-- The value of a cell: a number if the cell is one, whole numbers of 64 bits exactly, and its
text otherwise. -/
def readCell (cell : Text) : Json.Value :=
  match Text.toInt64? cell with
  | some n => .number (.int n)
  | none =>
    match Text.toBinary64? cell with
    | some x => .number (.float x)
    | none => .string cell

/-- The cells of a line between its outer bars, which may be missing. -/
def cellsOf (line : Text) : List Text :=
  let cells := (Text.splitOn '|' line).map Text.trim
  let cells := if cells.getLast?.any List.isEmpty then cells.dropLast else cells
  match cells with
  | [] :: cells => cells
  | cells => cells

/-- The column names in a header. -/
def headerNames (line : Text) : List Text :=
  ((Text.splitOn '|' line).map Text.trim).filter (!·.isEmpty)

/-- The record of a row under column names, if any cell is filled. -/
def rowRecord? (names : List Text) (line : Text) : Option Record :=
  let cells := cellsOf line
  if cells.all List.isEmpty then none
  else some <| (names.zip cells).foldl (fun record (name, cell) =>
    if cell.isEmpty then record else Json.insertLast name (readCell cell) record) []

/-- Reads a chart block with a table. -/
def readTable (text : Text) : Except Error Description :=
  let lines := Text.lines (Text.trim text)
  match lines.filter hasBar with
  | [] => .error .missingHeader
  | header :: rest =>
    match headerNames header with
    | [] => .error .emptyHeader
    | x :: keys =>
      let base : Description := {
        data := (rest.drop 1).filterMap (rowRecord? (x :: keys))
        colors := some standardColors
        xKey := some x
        dataKeys := some keys }
      .ok ((lines.takeWhile (!hasBar ·)).foldl Description.setLine base).withColors

end MarkdownPrep.Chart
