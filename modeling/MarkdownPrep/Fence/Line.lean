import MarkdownPrep.Text.Blank

/-!
# Fence lines

A code block is fenced by lines of at least three backticks or tildes, indented by at most three
spaces. The opening line may carry an info string, whose first word is the language; one of
backticks may not contain a backtick. The closing line is a run of the same marker at least as
long as the opening one, and nothing else but white space.
-/

namespace MarkdownPrep.Fence

/-- The opening line of a fenced code block. -/
structure Opening where
  marker : Char
  length : Nat
  /-- The first word of the info string, if there is one. -/
  language : Option Text
  deriving DecidableEq, Repr

/-- A line without its indent of at most three spaces. -/
def unindent (line : Text) : Text := line.drop (min 3 (line.takeWhile (· = ' ')).length)

/-- Reads a line as the opening of a fence. -/
def opening? (line : Text) : Option Opening :=
  let rest := unindent line
  match rest with
  | [] => none
  | marker :: _ =>
    let length := (rest.takeWhile (· = marker)).length
    let info := Text.trim (rest.drop length)
    if (marker = '`' || marker = '~') && 3 ≤ length && !(marker = '`' && info.contains '`') then
      some ⟨marker, length, Text.firstWord? info⟩
    else none

/-- True when a line closes the fence that `o` opens. -/
def Opening.endsAt (o : Opening) (line : Text) : Bool :=
  let rest := Text.trimEnd (unindent line)
  o.length ≤ rest.length && rest.all (· = o.marker)

end MarkdownPrep.Fence
