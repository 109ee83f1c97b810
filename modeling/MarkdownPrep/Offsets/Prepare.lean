import MarkdownPrep.Offsets.Amount
import MarkdownPrep.Offsets.Dollar
import MarkdownPrep.Offsets.Fence
import MarkdownPrep.Offsets.Wrap
import MarkdownPrep.Prepare

/-!
# Preparing markdown by offset

The passes of `MarkdownPrep.Prepare` as they go by byte offsets. If one of them fails, the text is
left as it was.
-/

namespace MarkdownPrep.Offsets

/-- Puts display math, fenced code and inline code aside, in this order. -/
def hideVerbatim? (s : Text) : Option (Text × Stash) := do
  let (s₁, st₁) := (Stash.forText s).hide .displayMath (Verbatim.displayMath s)
  let (s₂, st₂) ← hideBlocks? s₁ st₁
  return st₂.hide .inlineCode (Verbatim.inlineCode s₂)

/-- All passes over a text with unified line ends. -/
def settleDollars? (s : Text) : Option Text := do
  let (s, verbatim) ← hideVerbatim? s
  let (s, amounts) ← hideAmounts? s verbatim.emptied
  let (s, verbatim) := hideMathBlocks (Delimiter.toDollars s) verbatim
  let (s, verbatim) ← hideInlineMath? s verbatim
  let s ← wrapBareMath? verbatim.sentinel s
  let s ← escapeLiteral? verbatim.sentinel s
  return giveAllBack amounts verbatim s

/-- Prepares markdown for rendering. -/
def prepare? (s : Text) : Option Text := do
  if s.isEmpty then return []
  else
    let out ← settleDollars? (Text.unifyLineEnds s)
    return Text.trimEnd out ++ ['\n']

/-- The text prepared, or as it was if that fails. -/
def prepareOrKeep (s : Text) : Text := (prepare? s).getD s

end MarkdownPrep.Offsets
