import MarkdownPrep.Chart.Setting
import MarkdownPrep.Text.Lines

/-!
# Charts as lines

In a chart block without a table every line is a setting. The data are read last, whatever line
they stand in: a list of numbers makes rows that take their names from the labels.
-/

namespace MarkdownPrep.Chart

/-- The data of a line, before the labels are known. -/
inductive LineData where
  /-- Objects, as they are written. -/
  | records (rows : List Record)
  /-- An array of other values. -/
  | values (vs : List Json.Value)
  deriving Repr

/-- Reads the data of a line. -/
def LineData.read? (value : Text) : Option LineData :=
  (readRecords? value).map .records <|> (Json.read? (.list .anyValue) value).map .values

/-- True for a number. -/
def isNumber : Json.Value → Bool
  | .number _ => true
  | _ => false

/-- The name of the row of index `i` without a label. -/
def itemName (i : Nat) : Text := "Item ".toList ++ Nat.toDigits 10 (i + 1)

/-- Rows with a name and a value, the names taken from the labels as far as they go. -/
def labelledRows (labels : List Text) (vs : List Json.Value) : List Record :=
  vs.zipIdx.map fun (v, i) =>
    [("name".toList, .string (labels[i]?.getD (itemName i))), ("value".toList, v)]

/-- The objects among some values. -/
def objectsOf (vs : List Json.Value) : List Record :=
  vs.filterMap fun
    | .object ms => some ms
    | _ => none

/-- The description with the data of a line. An array that starts with a number is a list of
plain values; of any other array the objects are the rows. -/
def Description.withData (c : Description) : LineData → Description
  | .records rows => { c with data := rows }
  | .values vs =>
    if vs.head?.any isNumber then
      { c with
        data := labelledRows (c.labels.getD []) vs
        xKey := some "name".toList
        dataKeys := some ["value".toList] }
    else { c with data := objectsOf vs }

/-- The key under which data are given. -/
def dataKey : Text := "data".toList

/-- The description and the data after a line. Data that do not read leave the earlier ones. -/
def stepLine (state : Description × Option LineData) (line : Text) :
    Description × Option LineData :=
  match Text.splitOnce? ':' line with
  | none => state
  | some (key, value) =>
    if Setting.keyOf key = dataKey then (state.1, LineData.read? (Text.trim value) <|> state.2)
    else (state.1.set key value, state.2)

/-- Reads a chart block of settings. -/
def readLines (text : Text) : Description :=
  let (c, data) := (Text.lines (Text.trim text)).foldl stepLine
    ({ colors := some standardColors }, none)
  (match data with
    | some data => c.withData data
    | none => c).withColors

end MarkdownPrep.Chart
