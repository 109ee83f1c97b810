import MarkdownPrep.Proofs.Fence.Exact
import MarkdownPrep.Proofs.Verbatim.Frame

/-!
# A fenced block in its place

Lines leave to the lines after them the block that is open: `scan` gives that block and the segments
that are done, and reading goes on from there (`segmentsFrom_append_scan`). So a text whose blocks
are all closed is cut by itself when more lines follow (`segmentsFrom_append`), and as a block is read
to its closing line (`segmentsFrom_of_closing`), a fenced block is found where it stands, with the
newline before it (`pieces_append_fenced`).
-/

namespace MarkdownPrep

/-! ## Lines -/

namespace Text

/-- A text of whole lines: nothing, or what ends in a newline. -/
def WholeLines (s : Text) : Prop := s = [] ∨ s.getLast? = some '\n'

instance (s : Text) : Decidable (WholeLines s) := inferInstanceAs (Decidable (_ ∨ _))

theorem WholeLines.of_cons {c : Char} {s : Text} (h : WholeLines (c :: s)) : WholeLines s := by
  cases s with
  | nil => exact .inl rfl
  | cons d s => exact .inr ((h.resolve_left (List.cons_ne_nil _ _)))

/-- Whole lines are lines by themselves. -/
theorem fullLines_append {s : Text} (h : WholeLines s) (t : Text) :
    fullLines (s ++ t) = fullLines s ++ fullLines t := by
  induction s with
  | nil => rfl
  | cons c s ih =>
    rw [List.cons_append, fullLines, fullLines, ih h.of_cons]
    by_cases hc : c = '\n'
    · rw [if_pos hc, if_pos hc]
      rfl
    · rw [if_neg hc, if_neg hc]
      cases hs : fullLines s with
      | cons l ls => rfl
      | nil =>
        obtain rfl : s = [] := by rw [← flatten_fullLines s, hs]; rfl
        exact absurd (Option.some.inj (h.resolve_left (List.cons_ne_nil _ _))) hc

theorem getLast?_of_mem_fullLines {s line : Text} (h : WholeLines s) (hm : line ∈ fullLines s) :
    line.getLast? = some '\n' := by
  induction s generalizing line with
  | nil => cases hm
  | cons c s ih =>
    rw [fullLines] at hm
    split at hm
    · next hc =>
      rcases List.mem_cons.1 hm with rfl | hm
      · rw [hc]
        rfl
      · exact ih h.of_cons hm
    · next hc =>
      split at hm
      · next hs =>
        obtain rfl : s = [] := by rw [← flatten_fullLines s, hs]; rfl
        exact absurd (Option.some.inj (h.resolve_left (List.cons_ne_nil _ _))) hc
      · next l ls hs =>
        rw [hs] at ih
        rcases List.mem_cons.1 hm with rfl | hm
        · have hl : l.getLast? = some '\n' := ih h.of_cons List.mem_cons_self
          rw [List.getLast?_cons_of_ne_nil (by rintro rfl; cases hl), hl]
        · exact ih h.of_cons (List.mem_cons_of_mem _ hm)

theorem fullLines_line {l : Text} (h : '\n' ∉ l) : fullLines (l ++ ['\n']) = [l ++ ['\n']] := by
  induction l with
  | nil => rfl
  | cons c l ih =>
    rw [List.mem_cons, not_or] at h
    rw [List.cons_append, fullLines, if_neg (Ne.symm h.1), ih h.2]

theorem dropOneEnd_concat (c : Char) (s : Text) : dropOneEnd c (s ++ [c]) = s := by
  rw [dropOneEnd, if_pos List.getLast?_concat, List.dropLast_concat]

end Text

namespace Fence

/-! ## Reading up to a line -/

/-- The segments that are done after some lines, and the block that is open then, with its text so
far. -/
def scan (started : Option (Opening × Text)) : List Text → List Segment × Option (Opening × Text)
  | [] => ([], started)
  | line :: lines =>
    match started with
    | none =>
      match openingOf? line with
      | none => (.prose line :: (scan none lines).1, (scan none lines).2)
      | some o => scan (some (o, line)) lines
    | some (o, t) =>
      if o.EndsAt line then
        (.block (t ++ line) true :: (scan none lines).1, (scan none lines).2)
      else scan (some (o, t ++ line)) lines

/-- What an open block is when no line follows. -/
def unfinished : Option (Opening × Text) → List Segment
  | none => []
  | some (_, t) => [.block t false]

/-- **Reading goes on** from the block that is open. -/
theorem segmentsFrom_append_scan (started : Option (Opening × Text)) (lines lines' : List Text) :
    segmentsFrom started (lines ++ lines') =
      (scan started lines).1 ++ segmentsFrom (scan started lines).2 lines' := by
  induction lines generalizing started with
  | nil => rfl
  | cons line lines ih =>
    cases started with
    | none =>
      rw [List.cons_append, scan]
      cases hopening : openingOf? line with
      | none =>
        rw [segmentsFrom_of_prose hopening, ih none]
        rfl
      | some o =>
        rw [segmentsFrom_of_opening hopening]
        exact ih (some (o, line))
    | some open_ =>
      obtain ⟨o, t⟩ := open_
      rw [List.cons_append, scan, segmentsFrom]
      by_cases hend : o.EndsAt line
      · rw [if_pos hend, if_pos hend, ih none]
        rfl
      · rw [if_neg hend, if_neg hend]
        exact ih (some (o, t ++ line))

theorem segmentsFrom_eq_scan (started : Option (Opening × Text)) (lines : List Text) :
    segmentsFrom started lines = (scan started lines).1 ++ unfinished (scan started lines).2 := by
  have happend := segmentsFrom_append_scan started lines []
  rw [List.append_nil] at happend
  rw [happend]
  rcases (scan started lines).2 with _ | ⟨o, t⟩ <;> rfl

/-- A block that is done is closed. -/
theorem not_mem_scan (started : Option (Opening × Text)) (lines : List Text) (t : Text) :
    .block t false ∉ (scan started lines).1 := by
  induction lines generalizing started with
  | nil => simp [scan]
  | cons line lines ih =>
    cases started with
    | none =>
      rw [scan]
      cases openingOf? line with
      | none => simpa using ih none
      | some o => exact ih (some (o, line))
    | some open_ =>
      obtain ⟨o, u⟩ := open_
      rw [scan]
      split
      · simpa using ih none
      · exact ih (some (o, u ++ line))

/-! ## Segments -/

/-- What stands before is cut by itself if all blocks in it are closed. -/
theorem segmentsFrom_append {started : Option (Opening × Text)} {lines : List Text}
    (h : ∀ t, .block t false ∉ segmentsFrom started lines) (lines' : List Text) :
    segmentsFrom started (lines ++ lines') =
      segmentsFrom started lines ++ segmentsFrom none lines' := by
  rw [segmentsFrom_eq_scan started lines] at h ⊢
  have hnone : (scan started lines).2 = none := by
    rcases hopen : (scan started lines).2 with _ | ⟨o, t⟩
    · rfl
    · exact absurd (List.mem_append_right _ (by rw [hopen]; exact List.mem_singleton_self _)) (h t)
  rw [segmentsFrom_append_scan, hnone, unfinished, List.append_nil]

/-- The lines outside all blocks are lines. -/
theorem mem_of_prose_mem {started : Option (Opening × Text)} {lines : List Text} {line : Text}
    (h : .prose line ∈ segmentsFrom started lines) : line ∈ lines := by
  induction lines generalizing started with
  | nil => rcases started with _ | ⟨o, t⟩ <;> simp [segmentsFrom] at h
  | cons l lines ih =>
    rcases started with _ | ⟨o, t⟩
    · simp only [segmentsFrom] at h
      split at h
      · rcases List.mem_cons.1 h with h | h
        · cases h
          exact List.mem_cons_self
        · exact List.mem_cons_of_mem _ (ih h)
      · exact List.mem_cons_of_mem _ (ih h)
    · simp only [segmentsFrom] at h
      split at h
      · rcases List.mem_cons.1 h with h | h
        · cases h
        · exact List.mem_cons_of_mem _ (ih h)
      · exact List.mem_cons_of_mem _ (ih h)

/-- A block ends at the first line that closes it. -/
theorem segmentsFrom_of_closing {o : Opening} {lines : List Text} {g : Text}
    (h : ∀ line ∈ lines, ¬ o.endsAt (Text.dropOneEnd '\n' line))
    (hg : o.endsAt (Text.dropOneEnd '\n' g)) (t : Text) (lines' : List Text) :
    segmentsFrom (some (o, t)) (lines ++ g :: lines') =
      .block (t ++ (lines.flatten ++ g)) true :: segmentsFrom none lines' := by
  induction lines generalizing t with
  | nil =>
    rw [List.nil_append, segmentsFrom, if_pos hg]
    rfl
  | cons line lines ih =>
    rw [List.forall_mem_cons] at h
    rw [List.cons_append, segmentsFrom, if_neg h.1, ih h.2, List.flatten_cons, List.append_assoc, List.append_assoc]

/-- A fenced block: an opening line, a body and a closing line. -/
def fenced (f body g : Text) : Text := f ++ '\n' :: (body ++ (g ++ ['\n']))

/-! ## Pieces -/

/-- Pieces with a block found after them: a newline at their end is found together with the block. -/
def withBlock (ps : List Piece) (t : Text) : List Piece :=
  if ps.getLast? = some (.kept '\n') then ps.dropLast ++ [.found ('\n' :: t)] else ps ++ [.found t]

theorem withBlock_append (ps qs : List Piece)
    (h : qs = [] → ps.getLast? ≠ some (.kept '\n')) (t : Text) :
    withBlock (ps ++ qs) t = ps ++ withBlock qs t := by
  rcases eq_or_ne qs [] with rfl | hne
  · rw [withBlock, List.append_nil, if_neg (h rfl)]
    rfl
  · rw [withBlock, withBlock, List.getLast?_append_of_ne_nil _ hne, List.dropLast_append_of_ne_nil hne]
    split <;> rw [List.append_assoc]

theorem piecesOf_prose_ne_nil {line : Text} (h : line ≠ []) (segs : List Segment) :
    piecesOf (.prose line :: segs) ≠ [] := by
  cases segs with
  | nil => simpa [piecesOf, Piece.keep] using h
  | cons seg segs =>
    cases seg with
    | prose line' => simp [piecesOf, Piece.keep, h]
    | block t closed => simp [piecesOf]

/-- The pieces before a block. -/
theorem piecesOf_append_block {segs : List Segment}
    (h : ∀ line, .prose line ∈ segs → line.getLast? = some '\n') (t : Text) (closed : Bool)
    (segs' : List Segment) :
    piecesOf (segs ++ .block t closed :: segs') = withBlock (piecesOf segs) t ++ piecesOf segs' := by
  fun_induction piecesOf segs with
  | case1 => rfl
  | case2 t₀ closed₀ segs ih =>
    have hfirst := withBlock_append [.found t₀] (piecesOf segs) (by simp) t
    rw [List.cons_append, piecesOf, ih fun line hl => h line (List.mem_cons_of_mem _ hl)]
    rw [List.singleton_append] at hfirst
    rw [hfirst]
    rfl
  | case3 line t₀ closed₀ segs ih =>
    have hfirst := withBlock_append (Piece.keep line.dropLast ++ [.found ('\n' :: t₀)])
      (piecesOf segs) (by simp) t
    rw [List.cons_append, List.cons_append, piecesOf, ih fun line hl =>
      h line (List.mem_cons_of_mem _ (List.mem_cons_of_mem _ hl))]
    rw [List.append_assoc, List.singleton_append] at hfirst
    rw [hfirst]
    simp
  | case4 line segs hne ih =>
    obtain ⟨l, hl⟩ := List.getLast?_eq_some_iff.1 (h line List.mem_cons_self)
    cases segs with
    | nil =>
      subst hl
      simp [piecesOf, withBlock, Piece.keep]
    | cons seg segs =>
      cases seg with
      | block t₀ closed₀ => exact (hne t₀ closed₀ segs rfl).elim
      | prose line' =>
        have hline' := h line' (by simp)
        have hfirst := withBlock_append (Piece.keep line) (piecesOf (.prose line' :: segs))
          (fun hnil => absurd hnil (piecesOf_prose_ne_nil (by rintro rfl; cases hline') segs)) t
        have ih := ih fun line hl => h line (List.mem_cons_of_mem _ hl)
        rw [hfirst, List.append_assoc, ← ih]
        rfl

/-! ## The block in its place -/

section
variable {s f body g : Text} {o : Opening} (hs : Text.WholeLines s)
  (hclosed : ∀ t, .block t false ∉ segments s) (hf : opening? f = some o) (hfline : '\n' ∉ f)
  (hbody : Text.WholeLines body)
  (hopen : ∀ line ∈ Text.fullLines body, ¬ o.endsAt (Text.dropOneEnd '\n' line))
  (hg : o.endsAt g) (hgline : '\n' ∉ g)
include hs hclosed hf hfline hbody hopen hg hgline

/-- **A fenced block is a segment.** -/
theorem segments_append_fenced (u : Text) : segments (s ++ (fenced f body g ++ u)) =
    segments s ++ .block (fenced f body g) true :: segments u := by
  have hline : ∀ l t : Text, '\n' ∉ l → Text.fullLines (l ++ '\n' :: t) =
      (l ++ ['\n']) :: Text.fullLines t := by
    intro l t hl
    have hsplit := Text.fullLines_append (s := l ++ ['\n']) (.inr List.getLast?_concat) t
    rwa [Text.fullLines_line hl, List.append_assoc] at hsplit
  have hlines : Text.fullLines (fenced f body g ++ u) = (f ++ ['\n']) ::
      (Text.fullLines body ++ (g ++ ['\n']) :: Text.fullLines u) := by
    have hassoc : fenced f body g ++ u = f ++ '\n' :: (body ++ (g ++ '\n' :: u)) := by
      simp [fenced]
    rw [hassoc, hline _ _ hfline, Text.fullLines_append hbody, hline _ _ hgline]
  rw [segments, Text.fullLines_append hs, segmentsFrom_append hclosed, hlines, segmentsFrom,
    Text.dropOneEnd_concat, hf]
  dsimp only
  rw [segmentsFrom_of_closing hopen (by rwa [Text.dropOneEnd_concat]), Text.flatten_fullLines]
  refine congrArg _ (congrArg (Segment.block · true :: _) ?_)
  simp [fenced]

/-- **A fenced block is found where it stands**, with the newline before it. -/
theorem pieces_append_fenced (u : Text) : pieces (s ++ (fenced f body g ++ u)) =
    withBlock (pieces s) (fenced f body g) ++ pieces u := by
  have hprose : ∀ line, .prose line ∈ segments s → line.getLast? = some '\n' := fun line hl =>
    Text.getLast?_of_mem_fullLines hs (mem_of_prose_mem hl)
  rw [pieces, segments_append_fenced hs hclosed hf hfline hbody hopen hg hgline,
    piecesOf_append_block hprose]
  rfl

end

end Fence

end MarkdownPrep
