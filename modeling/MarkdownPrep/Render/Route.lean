import MarkdownPrep.Chart.Dialect
import MarkdownPrep.Render.Preferences

/-!
# Routes of fenced blocks

The language of a fenced block decides what renders it, as far as the preferences allow. Languages
are taken without regard to letter case and white space around them.
-/

namespace MarkdownPrep.Render

/-- What renders a fenced block. -/
inductive Route where
  | chart (tag : Chart.Tag)
  | mermaid
  | plantUml
  | svg
  | music
  | highlighted (language : Text) (theme : Theme)
  | plain
  deriving DecidableEq, Repr

/-- The route of a block that draws something other than a chart, by its language. -/
def graphRoute? (p : Preferences) (language : Text) : Option Route :=
  if p.graphs && language = "mermaid".toList && p.mermaid then some .mermaid
  else if p.graphs && (language = "plantuml".toList || language = "puml".toList) && p.plantUml then
    some .plantUml
  else if p.graphs && language = "svg".toList && p.svg then some .svg
  else if p.music && (language = "abc".toList || language = "music".toList) then some .music
  else none

/-- The route of a chart block. -/
def chartRoute? (p : Preferences) (language : Text) : Option Route :=
  if p.charts then (Chart.Tag.ofText? language).map .chart else none

/-- The route of a block with the given language. -/
def routeOf (p : Preferences) (language : Option Text) : Route :=
  match (language.map Text.trim).filter (!·.isEmpty) with
  | none => .plain
  | some language =>
    let language := Text.lower language
    ((chartRoute? p language).or (graphRoute? p language)).getD <|
      if p.highlighting then .highlighted language p.theme else .plain

end MarkdownPrep.Render
