import MarkdownPrep.Amount.Currency
import MarkdownPrep.Delimiter
import MarkdownPrep.Dollar.Literal
import MarkdownPrep.Text.Lines
import MarkdownPrep.Verbatim
import MarkdownPrep.Wrap.Basic

/-!
# Preparing markdown

`prepare` changes markdown so that a renderer with a math extension reads every dollar as it
was meant: amounts come out with their dollar escaped, math stays delimited, and code and
display math come through as they were written.
-/

namespace MarkdownPrep

/-- The kinds of stretches that are put aside before the text is changed. -/
def verbatimKinds : List Stash.Kind := [.displayMath, .fencedCode, .inlineCode]

/-- The kinds of math that are put aside once it is delimited. -/
def mathKinds : List Stash.Kind := [.inlineMath, .mathBlock]

/-- Gives everything back: first math, which may hold amounts; then the amounts, their dollars
escaped; last what was put aside at the start. -/
def giveAllBack (amounts verbatim : Stash) (s : Text) : Text :=
  verbatim.restoreOnly verbatimKinds
    (amounts.restoreEscaped (verbatim.restoreOnly mathKinds s))

/-- All passes over a text with unified line ends, before the end of the text is tidied. -/
def settleDollars (s : Text) : Text :=
  let (s, verbatim) := hideVerbatim s
  let (s, amounts) := Amount.hide s verbatim.emptied
  let (s, verbatim) := hideMathBlocks (Delimiter.toDollars s) verbatim
  let (s, verbatim) := hideInlineMath s verbatim
  let s := Dollar.escapeLiteral verbatim.sentinel (wrapBareMath verbatim.sentinel s)
  giveAllBack amounts verbatim s

/-- Prepares markdown for rendering. Empty text stays empty; any other text comes out ending in
exactly one newline. -/
def prepare (s : Text) : Text :=
  if s.isEmpty then []
  else Text.trimEnd (settleDollars (Text.unifyLineEnds s)) ++ ['\n']

end MarkdownPrep
