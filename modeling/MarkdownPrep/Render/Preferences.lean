import MarkdownPrep.Chart.Encode
import MarkdownPrep.Json.Decode

/-!
# Preferences

Which kinds of fenced blocks get rich treatment, and how. Everything is enabled by default.
-/

namespace MarkdownPrep.Render

open Json

/-- The colour scheme. -/
inductive Theme where
  | light
  | dark
  /-- The one of the surrounding document. -/
  | auto
  deriving DecidableEq, Repr

/-- The themes by name. -/
def Theme.names : List (Text × Theme) :=
  [("light".toList, light), ("dark".toList, dark), ("auto".toList, auto)]

/-- The name of a theme. -/
def Theme.name (t : Theme) : Text := Chart.nameIn names t

/-- Which kinds of fenced blocks get rich treatment, and how. -/
structure Preferences where
  math : Bool := true
  /-- Whether there are diagrams and graphics at all. -/
  graphs : Bool := true
  mermaid : Bool := true
  plantUml : Bool := true
  svg : Bool := true
  charts : Bool := true
  music : Bool := true
  highlighting : Bool := true
  /-- The address of the server for PlantUML diagrams, if another than the default. -/
  plantUmlServer : Option Text := none
  theme : Theme := .dark
  deriving DecidableEq, Repr

namespace Preferences

/-- The server for PlantUML diagrams where none is named. -/
def defaultServer : Text := "https://www.plantuml.com/plantuml".toList

/-- The server for PlantUML diagrams. A blank address counts as none. -/
def server (p : Preferences) : Text :=
  (p.plantUmlServer.filter fun url => !(Text.trim url).isEmpty).getD defaultServer

/-- The field names of preferences, in order. -/
def fieldNames : List Text :=
  ["math".toList, "graphs".toList, "mermaid".toList, "plantuml".toList, "svg".toList,
    "charts".toList, "music".toList, "syntaxHighlighting".toList, "plantumlServerUrl".toList,
    "theme".toList]

/-- Decodes preferences. Every field may be missing, but only the server may be null. -/
def decode : Decoder Preferences := fun depth t => do
  let f ← Fields.decode fieldNames depth t
  return {
    math := ← f.get "math" .bool true
    graphs := ← f.get "graphs" .bool true
    mermaid := ← f.get "mermaid" .bool true
    plantUml := ← f.get "plantuml" .bool true
    svg := ← f.get "svg" .bool true
    charts := ← f.get "charts" .bool true
    music := ← f.get "music" .bool true
    highlighting := ← f.get "syntaxHighlighting" .bool true
    plantUmlServer := ← f.get? "plantumlServerUrl" .text
    theme := ← f.get "theme" (.named Theme.names) .dark }

/-- Preferences as a JSON value, every field included. -/
def encode (p : Preferences) : Value := .object [
  ("math".toList, .bool p.math),
  ("graphs".toList, .bool p.graphs),
  ("mermaid".toList, .bool p.mermaid),
  ("plantuml".toList, .bool p.plantUml),
  ("svg".toList, .bool p.svg),
  ("charts".toList, .bool p.charts),
  ("music".toList, .bool p.music),
  ("syntaxHighlighting".toList, .bool p.highlighting),
  ("plantumlServerUrl".toList,
    match p.plantUmlServer with
    | some url => .string url
    | none => .null),
  ("theme".toList, .string p.theme.name)]

end Preferences

end MarkdownPrep.Render
