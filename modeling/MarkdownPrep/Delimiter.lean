import MarkdownPrep.Text.Cut

/-!
# Bracket delimiters

Math may be delimited by backslash brackets instead of dollars: `\[ … \]` for a display block,
`\( … \)` for inline math. Both are turned into dollars, the block on lines of its own.
-/

namespace MarkdownPrep.Delimiter

/-- The pieces of a text with what stands in `\[ … \]` found, delimiters included. -/
def blocks (s : Text) : List Piece := Text.cut (.enclosed "\\[".toList "\\]".toList) s

/-- The pieces of a text with what stands in `\( … \)` found, delimiters included. -/
def inlines (s : Text) : List Piece := Text.cut (.enclosed "\\(".toList "\\)".toList) s

@[simp] theorem sources_blocks (s : Text) : Piece.sources (blocks s) = s :=
  Text.source_cut (Recogniser.honest_enclosed (by decide) _) s

@[simp] theorem sources_inlines (s : Text) : Piece.sources (inlines s) = s :=
  Text.source_cut (Recogniser.honest_enclosed (by decide) _) s

/-- A bracketed block as a dollar block on lines of its own. -/
def dollarBlock (t : Text) : Text := "\n$$".toList ++ Text.inner 2 t ++ "$$\n".toList

/-- Bracketed inline math as a dollar span. -/
def dollarSpan (t : Text) : Text := '$' :: Text.inner 2 t ++ ['$']

/-- The text with bracket delimiters turned into dollars, blocks first. -/
def toDollars (s : Text) : Text :=
  Piece.mapFound dollarSpan (inlines (Piece.mapFound dollarBlock (blocks s)))

end MarkdownPrep.Delimiter
