import MarkdownPrep.Render.Block

/-!
# Parsed documents

What a markdown parser makes of a document is a list of events. `codeBlocks` collects the fenced
code blocks from it, and `ParserSetup.ofPreferences` says how the parser is to be set up.
-/

namespace MarkdownPrep.Document

/-- An event of a parsed document. -/
inductive Event where
  /-- The start of a fenced code block with its info string. -/
  | fencedStart (info : Text)
  | indentedStart
  | text (t : Text)
  /-- The end of a code block of either kind. -/
  | codeEnd
  /-- Anything else. -/
  | other
  deriving DecidableEq, Repr

/-- The blocks that end in a list of events, `current` being the one that is open. -/
def blocksFrom (current : Option Render.Block) : List Event → List Render.Block
  | [] => []
  | e :: es =>
    match e, current with
    | .fencedStart info, _ => blocksFrom (some ⟨Text.firstWord? info, []⟩) es
    | .text t, some b => blocksFrom (some { b with code := b.code ++ t }) es
    | .codeEnd, some b => { b with code := Text.dropOneEnd '\n' b.code } :: blocksFrom none es
    | _, _ => blocksFrom current es

/-- The fenced code blocks of a document in order. The language is the first word of the info
string; the code loses one newline at its end. -/
def codeBlocks (es : List Event) : List Render.Block := blocksFrom none es

/-- The extensions of the markdown parser. -/
inductive Extension where
  | tables
  | strikethrough
  | math
  deriving DecidableEq, Repr

/-- How a document is parsed. -/
structure ParserSetup where
  extensions : List Extension
  /-- Whether the text goes to the parser as it is, without being prepared. -/
  skipsPreparation : Bool
  deriving DecidableEq, Repr

/-- The setup of the parser. Without math, dollars are left to plain markdown. -/
def ParserSetup.ofPreferences (p : Render.Preferences) : ParserSetup where
  extensions := [.tables, .strikethrough] ++ if p.math then [.math] else []
  skipsPreparation := !p.math

end MarkdownPrep.Document
