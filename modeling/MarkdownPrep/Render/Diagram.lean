import MarkdownPrep.Render.Preferences
import MarkdownPrep.Text.WordChar

/-!
# Diagrams

What a diagram renderer is asked for, and the two quick checks that a source is worth asking:
PlantUML stands between tags such as `@startuml` and `@enduml` (`hasTag`), and ABC notation has
header lines such as `X:` (`hasAbcHeader`).
-/

namespace MarkdownPrep.Render

/-- The notations of diagrams. -/
inductive DiagramType where
  | mermaid
  | plantUml
  | music
  deriving DecidableEq, Repr

/-- The name of a notation. -/
def DiagramType.name : DiagramType → Text
  | mermaid => "mermaid".toList
  | plantUml => "plantuml".toList
  | music => "music".toList

/-- A diagram to draw. -/
structure Diagram where
  type : DiagramType
  source : Text
  theme : Theme
  /-- The server, for diagrams that are drawn elsewhere. -/
  server : Option Text
  deriving DecidableEq, Repr

/-- The text after `word`, given in small letters, at the front of a text. Letter case does not
count, and the long s is an `s`. -/
def afterTag? : Text → Text → Option Text
  | [], s => some s
  | _ :: _, [] => none
  | w :: ws, c :: s =>
    if c.toLower = w || c = '\u017F' && w = 's' then afterTag? ws s else none

/-- True when `word` and at least one word character stand somewhere in a text. -/
def hasTag (word s : Text) : Bool :=
  Text.anyPlace (fun _ t => ((afterTag? word t).map Text.startsWithWord).getD false) none s

/-- True when a line of a text starts with one of the headers of ABC notation. -/
def hasAbcHeader (s : Text) : Bool :=
  Text.anyPlace (fun before t =>
    before.all (· = '\n') &&
      match t with
      | c :: ':' :: _ => "XMTLK".toList.contains c
      | _ => false) none s

end MarkdownPrep.Render
