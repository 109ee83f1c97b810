import MarkdownPrep.Amount.Bare
import MarkdownPrep.Dollar.Span
import MarkdownPrep.Fence.Block
import MarkdownPrep.Stash.Basic

/-!
# Text that stays as it is

What must reach the reader as it was written is put aside before any pass changes the text:
display math first, then fenced code, then inline code. Later, `hideMathBlocks` and
`hideInlineMath` put math aside that is delimited by then, so that no pass wraps inside it.
-/

namespace MarkdownPrep

namespace Verbatim

/-- The pieces of a text with its `$$ … $$` blocks found. -/
def displayMath (s : Text) : List Piece := Text.cut (.enclosed "$$".toList "$$".toList) s

@[simp] theorem sources_displayMath (s : Text) : Piece.sources (displayMath s) = s :=
  Text.source_cut (Recogniser.honest_enclosed (by decide) _) s

/-- The code at the front of a text: at least one character between two backticks. -/
def codeRecogniser : Recogniser := fun _ s =>
  match s with
  | '`' :: t =>
    let body := t.takeWhile (· ≠ '`')
    if body ≠ [] && t.length ≠ body.length then some [.found ('`' :: body ++ ['`'])] else none
  | _ => none

theorem honest_codeRecogniser : codeRecogniser.Honest := by
  intro _ s ps h
  simp only [codeRecogniser] at h
  split at h
  · next t =>
    split at h
    · next hb =>
      simp only [Bool.and_eq_true, decide_eq_true_eq] at hb
      cases h
      obtain ⟨u, hu⟩ := Text.takeWhile_ne_append_prefix hb.2
      exact ⟨by simp [Piece.source], u, by simpa [Piece.source] using hu⟩
    · simp at h
  · simp at h

/-- The pieces of a text with its inline code found. -/
def inlineCode (s : Text) : List Piece := Text.cut codeRecogniser s

@[simp] theorem sources_inlineCode (s : Text) : Piece.sources (inlineCode s) = s :=
  Text.source_cut honest_codeRecogniser s

/-- The pieces of a text with those dollar spans found that are more than an amount. -/
def inlineMath (s : Text) : List Piece :=
  Piece.retain (fun span => !Amount.isBare (Text.trim (Dollar.interior span))) (Dollar.spans s)

@[simp] theorem sources_inlineMath (s : Text) : Piece.sources (inlineMath s) = s := by
  simp [inlineMath]

end Verbatim

/-- Puts display math, fenced code and inline code aside, in this order. -/
def hideVerbatim (s : Text) : Text × Stash :=
  let (s₁, st₁) := (Stash.forText s).hide .displayMath (Verbatim.displayMath s)
  let (s₂, st₂) := st₁.hide .fencedCode (Fence.pieces s₁)
  st₂.hide .inlineCode (Verbatim.inlineCode s₂)

/-- Puts the `$$ … $$` blocks of a text aside. -/
def hideMathBlocks (s : Text) (st : Stash) : Text × Stash :=
  st.hide .mathBlock (Verbatim.displayMath s)

/-- Puts the dollar spans of a text aside that are more than an amount. -/
def hideInlineMath (s : Text) (st : Stash) : Text × Stash :=
  st.hide .inlineMath (Verbatim.inlineMath s)

end MarkdownPrep
