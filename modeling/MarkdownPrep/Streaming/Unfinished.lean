import MarkdownPrep.Chart.Table

/-!
# Is a chart block still arriving?

`isUnfinished` judges from its text whether the rest of a chart block is still to come. It is
a heuristic: a finished but malformed block may look incomplete, which only delays its error.
-/

namespace MarkdownPrep.Streaming

open Chart

/-- True when as many `first` as `last` stand in a text. -/
def isBalanced (first last : Char) (s : Text) : Bool := s.count first = s.count last

/-- True for the row between the header and the rows of a table: dashes, colons and spaces, with
at least one dash. -/
def isSeparator (line : Text) : Bool :=
  let cells := cellsOf line
  cells.any (·.contains '-') && cells.all (·.all fun c => c = '-' || c = ':' || c = ' ')

/-- The number of filled cells of a row. -/
def filledCells (line : Text) : Nat := ((cellsOf line).filter (!·.isEmpty)).length

/-- True for the rows of a table that lack something: the separator, the first row of data, or
at least two cells of the last row. -/
def tableUnfinished (rows : List Text) : Bool :=
  if rows.any isSeparator then
    match rows.filter (!isSeparator ·) with
    | header :: row :: more =>
      filledCells ((row :: more).getLast (List.cons_ne_nil _ _)) + 2 ≤ filledCells header
    | _ => true
  else !rows.isEmpty

/-- True for a line that is a key and a colon without a value. -/
def lacksValue (line : Text) : Bool :=
  let line := Text.trim line
  line.getLast? = some ':' &&
    match Text.trimEnd line.dropLast with
    | [] => false
    | c :: s => c.isAlpha && s.all fun c => c.isAlphanum || c = '_' || c = '-'

/-- True when a text looks like a chart block whose rest has not arrived yet. -/
def isUnfinished (s : Text) : Bool :=
  !isBalanced '\x7b' '\x7d' s || !isBalanced '[' ']' s ||
    tableUnfinished (((Text.lines s).map Text.trim).filter hasBar) ||
    ((Text.lines s).reverse.find? fun line => !(Text.trim line).isEmpty).any fun line =>
      !hasBar line && lacksValue line

end MarkdownPrep.Streaming
