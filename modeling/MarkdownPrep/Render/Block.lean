import MarkdownPrep.Render.Diagram
import MarkdownPrep.Render.Route
import MarkdownPrep.Streaming.Watcher

/-!
# Rendering fenced blocks

`renderBlock` renders one fenced block by its route, and `renderAll` a row of blocks. What they
cannot do by themselves is done by services: graphics are sanitized, and diagrams are drawn by a
renderer that is started once, before its first Mermaid diagram. A session carries over from
block to block whether it was started, and the watcher of charts that are still arriving; the
calls made on the renderer are part of the result.
-/

namespace MarkdownPrep.Render

open Streaming

/-- A call on the diagram renderer. -/
inductive Call where
  | start (theme : Theme)
  | draw (d : Diagram)
  deriving DecidableEq, Repr

/-- The services that rendering relies on. -/
structure Services where
  /-- Makes markup safe. -/
  sanitize : Text → Text
  /-- Draws a diagram, or says why it cannot. -/
  draw : Diagram → Except Text Text

/-- Why a block cannot be rendered. -/
inductive BlockError where
  | blankSvg
  | noPlantUmlStart
  | noPlantUmlEnd
  | noAbcHeader
  | drawing (type : DiagramType) (reason : Text)
  deriving DecidableEq, Repr

/-- The text of an error. -/
def BlockError.message : BlockError → Text
  | blankSvg => "sanitized SVG is empty".toList
  | noPlantUmlStart =>
    "PlantUML diagram must start with @start... (e.g., @startuml, @startmindmap)".toList
  | noPlantUmlEnd =>
    "PlantUML diagram must end with @end... (e.g., @enduml, @endmindmap)".toList
  | noAbcHeader =>
    "Unable to detect ABC notation; expected headers like X:, T:, M:, L:, or K:".toList
  | drawing type reason => type.name ++ " renderer failed: ".toList ++ reason

/-- A rendered block. -/
inductive Output where
  | chart (o : Outcome)
  | diagram (type : DiagramType) (image : Text)
  | svg (markup : Text)
  | highlighted (language : Text) (theme : Theme) (code : Text)
  | plain (code : Text)
  deriving Repr

/-- What carries over from block to block. -/
structure Session where
  watcher : Watcher := {}
  /-- Whether the diagram renderer was started. -/
  started : Bool := false
  deriving DecidableEq, Repr

/-- A fenced block as it stands in a document. -/
structure Block where
  language : Option Text
  code : Text
  deriving DecidableEq, Repr

/-- The result of rendering a block. -/
structure Rendered where
  output : Except BlockError Output
  /-- The calls that were made, in order. -/
  calls : List Call
  session : Session

/-- Draws a diagram after the calls that were made already. -/
def drawDiagram (services : Services) (session : Session) (calls : List Call) (d : Diagram) :
    Rendered where
  output :=
    match services.draw d with
    | .ok image => .ok (.diagram d.type image)
    | .error reason => .error (.drawing d.type reason)
  calls := calls ++ [.draw d]
  session

/-- A block that is refused without any call. -/
def refuse (e : BlockError) (session : Session) : Rendered := ⟨.error e, [], session⟩

/-- Renders the code of a block along a route. -/
def renderRoute (services : Services) (p : Preferences) (session : Session) (now : Nat)
    (code : Text) : Route → Rendered
  | .chart tag =>
    let (outcome, watcher) := session.watcher.examine code tag.name now
    ⟨.ok (.chart outcome), [], { session with watcher }⟩
  | .svg =>
    let markup := services.sanitize code
    if (Text.trim markup).isEmpty then refuse .blankSvg session
    else ⟨.ok (.svg markup), [], session⟩
  | .mermaid =>
    drawDiagram services { session with started := true }
      (if session.started then [] else [.start p.theme]) ⟨.mermaid, code, p.theme, none⟩
  | .plantUml =>
    if !hasTag "@start".toList (Text.trim code) then refuse .noPlantUmlStart session
    else if !hasTag "@end".toList (Text.trim code) then refuse .noPlantUmlEnd session
    else drawDiagram services session [] ⟨.plantUml, code, p.theme, some p.server⟩
  | .music =>
    if !hasAbcHeader (Text.trim code) then refuse .noAbcHeader session
    else drawDiagram services session [] ⟨.music, code, p.theme, none⟩
  | .highlighted language theme => ⟨.ok (.highlighted language theme code), [], session⟩
  | .plain => ⟨.ok (.plain code), [], session⟩

/-- Renders a block. Its code loses one newline at the end, if it has one. -/
def renderBlock (services : Services) (p : Preferences) (session : Session) (now : Nat)
    (b : Block) : Rendered :=
  renderRoute services p session now (Text.dropOneEnd '\n' b.code) (routeOf p b.language)

/-- A block to render, with the preferences and the time it is rendered at. -/
structure Job where
  block : Block
  preferences : Preferences
  now : Nat
  /-- Whether the watcher forgets the blocks before. -/
  restart : Bool
  deriving DecidableEq, Repr

/-- Renders one block after the other, each with the session that the one before left. -/
def renderAll (services : Services) (session : Session) : List Job → List Rendered
  | [] => []
  | job :: jobs =>
    let session :=
      if job.restart then { session with watcher := session.watcher.reset } else session
    let r := renderBlock services job.preferences session job.now job.block
    r :: renderAll services r.session jobs

end MarkdownPrep.Render
