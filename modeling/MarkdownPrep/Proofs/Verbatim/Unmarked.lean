import MarkdownPrep.Proofs.Fence.Exact
import MarkdownPrep.Proofs.Fence.Line
import MarkdownPrep.Proofs.Stash.Cells
import MarkdownPrep.Verbatim

/-!
# Text without code

Code is marked with backticks or tildes. A text without either has no fenced block
(`Fence.pieces_eq_keep`) and no inline code, and is put aside in no part if it has no display math
either (`hideVerbatim_eq_self`).
-/

namespace MarkdownPrep

namespace Fence

/-- The marker of a fence stands in its opening line. -/
theorem marker_mem_of_opening? {line : Text} {o : Opening} (h : opening? line = some o) :
    IsMarker o.marker ∧ o.marker ∈ line := by
  obtain ⟨hmarker, hlen, k, -, info, rfl, -⟩ := isOpening_of_opening? h
  refine ⟨hmarker, List.mem_append_right _ (List.mem_append_left _ ?_)⟩
  exact List.mem_replicate.2 ⟨by omega, rfl⟩

theorem segmentsFrom_of_forall_prose {lines : List Text} (h : ∀ l ∈ lines, openingOf? l = none) :
    segmentsFrom none lines = lines.map .prose := by
  induction lines with
  | nil => rfl
  | cons line lines ih =>
    rw [List.forall_mem_cons] at h
    rw [segmentsFrom_of_prose h.1, ih h.2, List.map_cons]

theorem founds_piecesOf_map_prose (lines : List Text) :
    Piece.founds (piecesOf (lines.map .prose)) = [] := by
  induction lines with
  | nil => rfl
  | cons line lines ih =>
    have hcons : piecesOf (.prose line :: lines.map .prose) =
        Piece.keep line ++ piecesOf (lines.map .prose) := by cases lines <;> rfl
    rw [List.map_cons, hcons, Piece.founds_append, Piece.founds_keep, ih, List.append_nil]

/-- **Without the marks of fences** there is no fenced block. -/
theorem pieces_eq_keep {s : Text} (hbacktick : '`' ∉ s) (htilde : '~' ∉ s) :
    pieces s = Piece.keep s := by
  have hprose : ∀ l ∈ Text.fullLines s, openingOf? l = none := by
    intro l hl
    refine Option.eq_none_iff_forall_ne_some.2 fun o ho => ?_
    obtain ⟨hmarker, hmem⟩ := marker_mem_of_opening? ho
    have hs : o.marker ∈ s := by
      rw [← Text.flatten_fullLines s]
      exact List.mem_flatten_of_mem hl (Text.mem_of_mem_dropOneEnd hmem)
    rcases hmarker with hm | hm
    · exact hbacktick (hm ▸ hs)
    · exact htilde (hm ▸ hs)
  have hnone : Piece.founds (pieces s) = [] := by
    rw [pieces, segments, segmentsFrom_of_forall_prose hprose, founds_piecesOf_map_prose]
  rw [Piece.eq_keep_of_founds_nil hnone, sources_pieces]

end Fence

theorem Verbatim.inlineCode_eq_keep {s : Text} (h : '`' ∉ s) : inlineCode s = Piece.keep s := by
  refine Text.cut_eq_keep fun y c w hs => ?_
  have hc : c ≠ '`' := by
    rintro rfl
    exact h (hs ▸ List.mem_append_right y List.mem_cons_self)
  unfold codeRecogniser
  split
  · next heq => exact absurd (List.cons.inj heq).1 hc
  · rfl

/-- Nothing is put aside of a text without code and display math. -/
theorem hideVerbatim_eq_self {s : Text} (hdisplay : Verbatim.displayMath s = Piece.keep s)
    (hbacktick : '`' ∉ s) (htilde : '~' ∉ s) : hideVerbatim s = (s, .forText s) := by
  rw [hideVerbatim, hdisplay, Stash.hide_keep]
  dsimp only
  rw [Fence.pieces_eq_keep hbacktick htilde, Stash.hide_keep]
  dsimp only
  rw [Verbatim.inlineCode_eq_keep hbacktick, Stash.hide_keep]

end MarkdownPrep
