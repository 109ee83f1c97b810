import MarkdownPrep.Proofs.Dollar.Pair
import MarkdownPrep.Proofs.Stash.Cells
import MarkdownPrep.Verbatim

/-!
# Stretches put aside are framed

Display math, inline code and dollar spans begin and end with their delimiters, a fenced block with
a line end, its indent or its marker, and a block that no line closes reaches to the end of the
text. So every stretch that is put aside for what it is, is `Stash.Framed`.
-/

namespace MarkdownPrep

open Stash

/-! ## Delimited stretches -/

theorem framed_of_ends {a b : Char} (ha : isEdge a) (hb : isEdge b) (s u : Text) :
    Framed (a :: s ++ [b]) u :=
  ⟨⟨a, rfl, ha⟩, .inl ⟨b, List.getLast?_concat, hb⟩⟩

namespace Verbatim

theorem framed_displayMath (s : Text) :
    Piece.Placed (fun _ => Framed) [] (displayMath s) := by
  refine (Text.placed_enclosed (by decide) _ s).mono ?_
  rintro _ _ u ⟨body, rfl⟩
  have h := framed_of_ends (a := '$') (b := '$') (by decide) (by decide) ('$' :: body ++ ['$']) u
  simpa using h

theorem framed_inlineCode (s : Text) : Piece.Placed (fun _ => Framed) [] (inlineCode s) := by
  refine Text.placed_cut honest_codeRecogniser ?_ s
  intro x u v ps h _
  simp only [codeRecogniser] at h
  split at h
  · split at h
    · cases h
      exact Piece.placed_found_cons.2
        ⟨framed_of_ends (by decide) (by decide) _ _, Piece.placed_nil⟩
    · simp at h
  · simp at h

end Verbatim

/-- A dollar span begins and ends with its dollars. -/
theorem Dollar.placed_spans (s : Text) :
    Piece.Placed (fun _ t _ => ∃ body, t = '$' :: body ++ ['$']) [] (spans s) :=
  (placed_pairs s).mono fun _ _ _ ⟨body, ht, _⟩ => ⟨body, ht⟩

theorem Dollar.framed_spans (s : Text) : Piece.Placed (fun _ => Framed) [] (spans s) := by
  refine (placed_spans s).mono ?_
  rintro _ _ u ⟨body, rfl⟩
  exact framed_of_ends (by decide) (by decide) body u

theorem Verbatim.framed_inlineMath (s : Text) :
    Piece.Placed (fun _ => Framed) [] (inlineMath s) :=
  (Piece.placed_retain (Dollar.framed_spans s)).mono fun _ _ _ h => h.1

/-! ## Fenced blocks -/

/-- White space at the end aside, a text ends as it does when trimmed. -/
theorem Text.getLast?_trimEnd {s : Text} {c : Char} (h : s.getLast? = some c)
    (hc : ¬ isBlank c) : (trimEnd s).getLast? = some c := by
  induction s with
  | nil => cases h
  | cons d s ih =>
    rw [trimEnd]
    cases s with
    | nil =>
      obtain rfl : d = c := Option.some.inj h
      simp [trimEnd, hc]
    | cons e s =>
      have ih := ih (by simpa using h)
      split
      · next ht => rw [ht] at ih; cases ih
      · next t ht => rw [List.getLast?_cons, ih]; rfl

theorem Text.head?_of_head?_dropOneEnd {c d : Char} {s : Text}
    (h : (dropOneEnd c s).head? = some d) : s.head? = some d := by
  unfold dropOneEnd at h
  split at h
  · cases s with
    | nil => cases h
    | cons e s =>
      cases s with
      | nil => cases h
      | cons f s => exact h
  · exact h

theorem Text.mem_of_mem_dropOneEnd {c d : Char} {s : Text} (h : d ∈ dropOneEnd c s) : d ∈ s := by
  unfold dropOneEnd at h
  split at h
  · exact (List.dropLast_sublist s).subset h
  · exact h

namespace Fence

/-- The markers of fences. -/
def IsMarker (c : Char) : Prop := c = '`' ∨ c = '~'

theorem IsMarker.isEdge {c : Char} (h : IsMarker c) : isEdge c := by
  rcases h with rfl | rfl <;> decide

theorem opening?_eq_some {line : Text} {o : Opening} (h : opening? line = some o) :
    IsMarker o.marker ∧ 3 ≤ o.length ∧ ∃ c, line.head? = some c ∧ isEdge c := by
  simp only [opening?] at h
  split at h
  · simp at h
  · next marker rest hrest =>
    split at h
    · next hcond =>
      cases h
      simp only [Bool.and_eq_true, Bool.or_eq_true, decide_eq_true_eq] at hcond
      refine ⟨hcond.1.1, hcond.1.2, ?_⟩
      cases line with
      | nil => simp [unindent] at hrest
      | cons c line =>
        refine ⟨c, rfl, ?_⟩
        by_cases hc : c = ' '
        · subst hc; decide
        · have hun : unindent (c :: line) = c :: line := by simp [unindent, hc]
          obtain ⟨rfl, -⟩ := List.cons.inj (hun.symm.trans hrest)
          exact IsMarker.isEdge hcond.1.1
    · simp at h

/-- A closing line ends with its marker or white space. -/
theorem getLast?_of_endsAt {o : Opening} (hm : IsMarker o.marker) (hn : 3 ≤ o.length) {line : Text}
    (h : o.endsAt (Text.dropOneEnd '\n' line)) : ∃ c, line.getLast? = some c ∧ isEdge c := by
  rcases line.eq_nil_or_concat with rfl | ⟨s, c, rfl⟩
  · have hlen : (Text.trimEnd (unindent (Text.dropOneEnd '\n' []))).length = 0 := rfl
    simp only [Opening.endsAt, hlen, Bool.and_eq_true, decide_eq_true_eq] at h
    omega
  rw [List.concat_eq_append] at *
  refine ⟨c, List.getLast?_concat, ?_⟩
  by_cases hb : isBlank c
  · simp [isEdge, hb]
  have hline : Text.dropOneEnd '\n' (s ++ [c]) = s ++ [c] := by
    rw [Text.dropOneEnd, if_neg]
    rw [List.getLast?_concat]
    rintro ⟨⟩
    exact hb (by decide)
  rw [hline] at h
  simp only [Opening.endsAt, Bool.and_eq_true, decide_eq_true_eq, List.all_eq_true] at h
  -- what is left of the line after its indent still ends in `c`
  have hlast : (unindent (s ++ [c])).getLast? = some c := by
    have hne : unindent (s ++ [c]) ≠ [] := by
      intro hnil
      rw [hnil] at h
      exact absurd h.1 (by simp [Text.trimEnd]; omega)
    rw [unindent] at hne ⊢
    rw [List.getLast?_drop, if_neg, List.getLast?_concat]
    rw [ne_eq, List.drop_eq_nil_iff] at hne
    exact hne
  have hc := h.2 c (List.mem_of_getLast? (Text.getLast?_trimEnd hlast hb))
  exact hc ▸ hm.isEdge

/-- Every block begins with an edge, and ends with one or is the last segment. -/
def FramedBlocks : List Segment → Prop
  | [] => True
  | .prose _ :: segs => FramedBlocks segs
  | .block t _ :: segs => (∃ c, t.head? = some c ∧ isEdge c) ∧
      ((∃ c, t.getLast? = some c ∧ isEdge c) ∨ segs = []) ∧ FramedBlocks segs

theorem framedBlocks_segmentsFrom {started : Option (Opening × Text)} {lines : List Text}
    (h : ∀ o t, started = some (o, t) →
      IsMarker o.marker ∧ 3 ≤ o.length ∧ ∃ c, t.head? = some c ∧ isEdge c) :
    FramedBlocks (segmentsFrom started lines) := by
  induction lines generalizing started with
  | nil =>
    rcases started with _ | ⟨o, t⟩
    · trivial
    · exact ⟨(h o t rfl).2.2, .inr rfl, trivial⟩
  | cons line lines ih =>
    rcases started with _ | ⟨o, t⟩
    · simp only [segmentsFrom]
      split
      · exact ih (by simp)
      · next o ho =>
        refine ih ?_
        rintro _ _ ⟨⟩
        obtain ⟨hm, hn, c, hc, hedge⟩ := opening?_eq_some ho
        exact ⟨hm, hn, c, Text.head?_of_head?_dropOneEnd hc, hedge⟩
    · obtain ⟨hm, hn, c, hc, hedge⟩ := h o t rfl
      have hhead : (t ++ line).head? = some c := by rw [List.head?_append, hc]; rfl
      simp only [segmentsFrom]
      split
      · next hend =>
        obtain ⟨d, hd, hedge'⟩ := getLast?_of_endsAt hm hn hend
        refine ⟨⟨c, hhead, hedge⟩, .inl ⟨d, ?_, hedge'⟩, ih (by simp)⟩
        rw [List.getLast?_append, hd]
        rfl
      · refine ih ?_
        rintro _ _ ⟨⟩
        exact ⟨hm, hn, c, hhead, hedge⟩

theorem placed_piecesOf {segs : List Segment} (h : FramedBlocks segs) (s : Text) :
    Piece.Placed (fun _ => Framed) s (piecesOf segs) := by
  have hend : ∀ (t : Text) (segs : List Segment),
      ((∃ c, t.getLast? = some c ∧ isEdge c) ∨ segs = []) →
      (∃ c, t.getLast? = some c ∧ isEdge c) ∨ Piece.sources (piecesOf segs) = [] :=
    fun t segs h => h.imp_right fun hnil => by rw [hnil]; rfl
  fun_induction piecesOf segs generalizing s with
  | case1 => exact Piece.placed_nil
  | case2 t closed segs ih =>
    exact Piece.placed_found_cons.2 ⟨⟨h.1, hend t segs h.2.1⟩, ih h.2.2 _⟩
  | case3 line t closed segs ih =>
    obtain ⟨⟨c, hc, -⟩, hlast, h⟩ : FramedBlocks (.block t closed :: segs) := h
    rw [Piece.placed_append, Piece.placed_found_cons]
    refine ⟨Piece.placed_keep, ⟨⟨'\n', rfl, by decide⟩, ?_⟩, ih h _⟩
    rw [List.getLast?_cons_of_ne_nil (by rintro rfl; cases hc)]
    exact hend t segs hlast
  | case4 line segs _ ih =>
    exact Piece.placed_append.2 ⟨Piece.placed_keep, ih h _⟩

theorem framed_pieces (s : Text) : Piece.Placed (fun _ => Framed) [] (pieces s) :=
  placed_piecesOf (framedBlocks_segmentsFrom (by simp)) []

end Fence

end MarkdownPrep
