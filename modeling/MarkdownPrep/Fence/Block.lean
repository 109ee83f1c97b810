import MarkdownPrep.Fence.Line
import MarkdownPrep.Text.Cut
import MarkdownPrep.Text.Lines

/-!
# Fenced blocks

`segments` divides a text into its fenced code blocks and the lines between them. A block that
no line closes reaches to the end of the text, as it does while the text is still arriving.
-/

namespace MarkdownPrep.Fence

/-- A part of a text: a line outside all blocks, or a block with its fence lines. -/
inductive Segment where
  | prose (line : Text)
  | block (text : Text) (closed : Bool)
  deriving DecidableEq, Repr

namespace Segment

/-- The text of a segment. -/
def text : Segment → Text
  | prose line => line
  | block t _ => t

end Segment

/-- The segments of a list of lines, given the block that is open, if any, with its text so
far. Fence lines are recognised without the newline that ends them. -/
def segmentsFrom (started : Option (Opening × Text)) : List Text → List Segment
  | [] =>
    match started with
    | none => []
    | some (_, t) => [.block t false]
  | line :: lines =>
    match started with
    | none =>
      match opening? (Text.dropOneEnd '\n' line) with
      | none => .prose line :: segmentsFrom none lines
      | some o => segmentsFrom (some (o, line)) lines
    | some (o, t) =>
      if o.endsAt (Text.dropOneEnd '\n' line) then
        .block (t ++ line) true :: segmentsFrom none lines
      else segmentsFrom (some (o, t ++ line)) lines

theorem flatMap_text_segmentsFrom (started : Option (Opening × Text)) (lines : List Text) :
    (segmentsFrom started lines).flatMap Segment.text =
      (started.elim [] Prod.snd) ++ lines.flatten := by
  induction lines generalizing started with
  | nil => rcases started with _ | ⟨o, t⟩ <;> simp [segmentsFrom, Segment.text]
  | cons line lines ih =>
    rcases started with _ | ⟨o, t⟩
    · simp only [segmentsFrom]
      split <;> simp [ih, Segment.text]
    · simp only [segmentsFrom]
      split <;> simp [ih, Segment.text]

/-- The segments of a text. -/
def segments (s : Text) : List Segment := segmentsFrom none (Text.fullLines s)

/-- The segments put together are the text. -/
theorem flatMap_text_segments (s : Text) : (segments s).flatMap Segment.text = s := by
  simp [segments, flatMap_text_segmentsFrom, Text.flatten_fullLines]

/-- A fenced block with its place in UTF-8 bytes, and whether a line closes it. -/
structure Block extends Span where
  closed : Bool
  deriving DecidableEq, Repr

/-- The blocks of a list of segments, the first segment starting at byte `start`. -/
def blocksFrom (start : Nat) : List Segment → List Block
  | [] => []
  | .prose line :: segs => blocksFrom (start + Text.utf8Size line) segs
  | .block t closed :: segs =>
    ⟨⟨start, start + Text.utf8Size t, t⟩, closed⟩ :: blocksFrom (start + Text.utf8Size t) segs

/-- The fenced blocks of a text in order. -/
def blocks (s : Text) : List Block := blocksFrom 0 (segments s)

/-- The pieces of a list of segments with the blocks found. The newline that ends the line
before a block is found together with the block. -/
def piecesOf : List Segment → List Piece
  | [] => []
  | .block t _ :: segs => .found t :: piecesOf segs
  | .prose line :: .block t _ :: segs =>
    Piece.keep line.dropLast ++ .found ('\n' :: t) :: piecesOf segs
  | .prose line :: segs => Piece.keep line ++ piecesOf segs

theorem mem_dropLast_cons {a : α} {l : List α} (h : a ∈ l.dropLast) (b : α) :
    a ∈ (b :: l).dropLast := by
  cases l with
  | nil => simp at h
  | cons c l =>
    rw [List.dropLast_cons_of_ne_nil (List.cons_ne_nil _ _)]
    exact List.mem_cons_of_mem _ h

theorem sources_piecesOf {segs : List Segment}
    (h : ∀ line, .prose line ∈ segs.dropLast → line.getLast? = some '\n') :
    Piece.sources (piecesOf segs) = segs.flatMap Segment.text := by
  fun_induction piecesOf segs with
  | case1 => rfl
  | case2 t closed segs ih =>
    simp [Piece.source, Segment.text, ih fun line hl => h line (mem_dropLast_cons hl _)]
  | case3 line t closed segs ih =>
    obtain ⟨l, rfl⟩ := List.getLast?_eq_some_iff.1 (h line (by simp [List.dropLast]))
    simp [Piece.source, Segment.text,
      ih fun line hl => h line (mem_dropLast_cons (mem_dropLast_cons hl _) _)]
  | case4 line segs hne ih =>
    simp [Segment.text, ih fun line hl => h line (mem_dropLast_cons hl _)]

theorem getLast?_of_mem_dropLast_segmentsFrom {started : Option (Opening × Text)}
    {lines : List Text} (h : ∀ line ∈ lines.dropLast, line.getLast? = some '\n') :
    ∀ line, .prose line ∈ (segmentsFrom started lines).dropLast → line.getLast? = some '\n' := by
  induction lines generalizing started with
  | nil => rcases started with _ | ⟨o, t⟩ <;> simp [segmentsFrom]
  | cons line lines ih =>
    have ih := fun started => @ih started fun l hl => h l (mem_dropLast_cons hl _)
    intro l hl
    rcases started with _ | ⟨o, t⟩
    · simp only [segmentsFrom] at hl
      split at hl
      · cases hs : segmentsFrom none lines with
        | nil => simp [hs] at hl
        | cons seg segs =>
          have hlines : lines ≠ [] := by rintro rfl; simp [segmentsFrom] at hs
          rw [hs, List.dropLast_cons_of_ne_nil (List.cons_ne_nil _ _), List.mem_cons] at hl
          rcases hl with hl | hl
          · cases hl
            exact h _ (by rw [List.dropLast_cons_of_ne_nil hlines]; simp)
          · exact ih none l (by rwa [hs])
      · exact ih _ l hl
    · simp only [segmentsFrom] at hl
      split at hl
      · cases hs : segmentsFrom none lines with
        | nil => simp [hs] at hl
        | cons seg segs =>
          rw [hs, List.dropLast_cons_of_ne_nil (List.cons_ne_nil _ _), List.mem_cons] at hl
          rcases hl with hl | hl
          · cases hl
          · exact ih none l (by rwa [hs])
      · exact ih _ l hl

/-- The pieces of a text with its fenced blocks found. -/
def pieces (s : Text) : List Piece := piecesOf (segments s)

@[simp] theorem sources_pieces (s : Text) : Piece.sources (pieces s) = s := by
  rw [pieces, sources_piecesOf, flatMap_text_segments]
  exact getLast?_of_mem_dropLast_segmentsFrom fun _ => Text.getLast?_of_mem_dropLast_fullLines

end MarkdownPrep.Fence
