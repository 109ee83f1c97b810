import MarkdownPrep.Proofs.Fence.Exact
import MarkdownPrep.Proofs.Fence.Place

/-!
# The blocks of a growing text

A text that arrives piece by piece is read line by line, and reading goes on from the block that is
open after its lines (`scan`). So what follows whole lines leaves the blocks that are closed as they
are, and a block that is open keeps its start (`blocks_append`).
-/

namespace MarkdownPrep.Fence

/-- A block that is open goes on. -/
theorem exists_segmentsFrom_some (o : Opening) (t : Text) (lines : List Text) :
    ∃ u closed segs, segmentsFrom (some (o, t)) lines = .block u closed :: segs ∧ t <+: u := by
  obtain ⟨mid, last, rest, -, -, -, hsegs⟩ | ⟨-, hsegs⟩ := segmentsFrom_some o t lines
  · exact ⟨_, _, _, hsegs, List.prefix_append t _⟩
  · exact ⟨_, _, _, hsegs, List.prefix_append t _⟩

/-! ## Places -/

/-- A block with its place moved by `n` bytes. -/
def Block.shift (n : Nat) (b : Block) : Block :=
  { b with start := n + b.start, stop := n + b.stop }

theorem blocksFrom_append (n : Nat) (segs segs' : List Segment) :
    blocksFrom n (segs ++ segs') =
      blocksFrom n segs ++ blocksFrom (n + Text.utf8Size (segs.flatMap Segment.text)) segs' := by
  induction segs generalizing n with
  | nil => rfl
  | cons seg segs ih =>
    cases seg with
    | prose line => simp [blocksFrom, ih, Segment.text, Nat.add_assoc]
    | block t closed => simp [blocksFrom, ih, Segment.text, Nat.add_assoc]

theorem blocksFrom_eq_map_shift (n : Nat) (segs : List Segment) :
    blocksFrom n segs = (blocksFrom 0 segs).map (Block.shift n) := by
  suffices h : ∀ m, blocksFrom (n + m) segs = (blocksFrom m segs).map (Block.shift n) from h 0
  intro m
  induction segs generalizing m with
  | nil => rfl
  | cons seg segs ih =>
    cases seg with
    | prose line =>
      rw [blocksFrom, blocksFrom, Nat.add_assoc, ih]
    | block t closed =>
      rw [blocksFrom, blocksFrom, Nat.add_assoc, ih]
      rfl

/-- Blocks come from the segments that are blocks. -/
theorem mem_of_mem_blocksFrom {n : Nat} {segs : List Segment} {b : Block}
    (h : b ∈ blocksFrom n segs) : .block b.text b.closed ∈ segs := by
  induction segs generalizing n with
  | nil => cases h
  | cons seg segs ih =>
    cases seg with
    | prose line => exact List.mem_cons_of_mem _ (ih h)
    | block t closed =>
      rcases List.mem_cons.1 h with rfl | h
      · exact List.mem_cons_self
      · exact List.mem_cons_of_mem _ (ih h)

theorem closed_of_mem_scan {n : Nat} {started : Option (Opening × Text)} {lines : List Text}
    {b : Block} (h : b ∈ blocksFrom n (scan started lines).1) : b.closed := by
  refine Bool.not_eq_false _ |>.mp fun hopen => ?_
  have hmem := mem_of_mem_blocksFrom h
  rw [hopen] at hmem
  exact not_mem_scan started lines b.text hmem

/-! ## Whole lines and what follows them -/

/-- What is read of the lines of a text. -/
abbrev scanned (a : Text) : List Segment × Option (Opening × Text) := scan none (Text.fullLines a)

/-- The byte from which on a text is in the block that is open after it. -/
abbrev resumeAt (a : Text) : Nat := Text.utf8Size ((scanned a).1.flatMap Segment.text)

theorem blocks_eq_scanned (a : Text) : blocks a =
    blocksFrom 0 (scanned a).1 ++ blocksFrom (resumeAt a) (unfinished (scanned a).2) := by
  rw [blocks, segments, segmentsFrom_eq_scan, blocksFrom_append, Nat.zero_add]

/-- All blocks are closed if none is open after the text. -/
theorem forall_closed_iff (a : Text) : (∀ x ∈ blocks a, x.closed) ↔ (scanned a).2 = none := by
  rw [blocks_eq_scanned]
  constructor
  · intro h
    rcases hstarted : (scanned a).2 with _ | ⟨o, t⟩
    · rfl
    · have hopen := h _ (List.mem_append_right _ (by rw [hstarted]; exact List.mem_cons_self))
      cases hopen
  · intro h x hx
    rw [h] at hx
    exact closed_of_mem_scan (by simpa [unfinished, blocksFrom] using hx)

section
variable {a : Text} (ha : Text.WholeLines a) (b : Text)
include ha

/-- **The blocks that are done stay**, and what is open then goes on. -/
theorem blocks_append_eq : blocks (a ++ b) = blocksFrom 0 (scanned a).1 ++
    blocksFrom (resumeAt a) (segmentsFrom (scanned a).2 (Text.fullLines b)) := by
  rw [blocks, segments, Text.fullLines_append ha, segmentsFrom_append_scan, blocksFrom_append,
    Nat.zero_add]

/-- Where no block is open, what follows is read for itself. -/
theorem blocks_append_of_closed (h : (scanned a).2 = none) :
    blocks (a ++ b) = blocks a ++ (blocks b).map (Block.shift (Text.utf8Size a)) := by
  have hdone : blocks a = blocksFrom 0 (scanned a).1 := by
    rw [blocks_eq_scanned, h]
    exact List.append_nil _
  have hsize : resumeAt a = Text.utf8Size a := by
    have htext := flatMap_text_segments a
    rw [segments, segmentsFrom_eq_scan, h, unfinished, List.append_nil] at htext
    rw [resumeAt, htext]
  rw [blocks_append_eq ha, h, hsize, ← hdone, blocksFrom_eq_map_shift]
  rfl

/-- Where a block is open, it goes on from its start. -/
theorem exists_blocks_append_of_open {o : Opening} {t : Text} (h : (scanned a).2 = some (o, t)) :
    ∃ x y ys, (blocks a).getLast? = some x ∧
      blocks (a ++ b) = (blocks a).filter (·.closed) ++ y :: ys ∧
      y.start = x.start ∧ x.text <+: y.text := by
  let x : Block := ⟨⟨resumeAt a, resumeAt a + Text.utf8Size t, t⟩, false⟩
  have hblocks : blocks a = blocksFrom 0 (scanned a).1 ++ [x] := by
    rw [blocks_eq_scanned, h]
    rfl
  have hdone : (blocks a).filter (·.closed) = blocksFrom 0 (scanned a).1 := by
    have hclosed := List.filter_eq_self.2 fun y (hy : y ∈ blocksFrom 0 (scanned a).1) =>
      closed_of_mem_scan hy
    rw [hblocks, List.filter_append, hclosed]
    exact List.append_nil _
  obtain ⟨u, closed, segs, hsegs, hprefix⟩ := exists_segmentsFrom_some o t (Text.fullLines b)
  refine ⟨x, ⟨⟨resumeAt a, resumeAt a + Text.utf8Size u, u⟩, closed⟩,
    blocksFrom (resumeAt a + Text.utf8Size u) segs, ?_, ?_, rfl, hprefix⟩
  · rw [hblocks, List.getLast?_concat]
  · rw [blocks_append_eq ha, h, hsegs, hdone, blocksFrom]

/-- **Fence detection is stable while a text arrives.** Whole lines whose blocks are all closed are
read for themselves, and so is what follows them. If their last block is open, the closed ones
stay, and the open one goes on from its start. -/
theorem blocks_append :
    ((∀ x ∈ blocks a, x.closed) →
      blocks (a ++ b) = blocks a ++ (blocks b).map (Block.shift (Text.utf8Size a))) ∧
    ∀ x, (blocks a).getLast? = some x → ¬ x.closed →
      ∃ y ys, blocks (a ++ b) = (blocks a).filter (·.closed) ++ y :: ys ∧
        y.start = x.start ∧ x.text <+: y.text := by
  refine ⟨fun h => blocks_append_of_closed ha b ((forall_closed_iff a).1 h), fun x hx hopen => ?_⟩
  rcases hstarted : (scanned a).2 with _ | ⟨o, t⟩
  · exact absurd ((forall_closed_iff a).2 hstarted x (List.mem_of_getLast? hx)) hopen
  · obtain ⟨x', y, ys, hx', happend⟩ := exists_blocks_append_of_open ha b hstarted
    obtain rfl := Option.some.inj (hx'.symm.trans hx)
    exact ⟨y, ys, happend⟩

end

/-- Two closed blocks and an open one, each time with more lines after them. -/
theorem blocks_append_of_arriving :
    (Text.WholeLines "~~~\nx\n~~~\ny\n".toList ∧
      (∀ x ∈ blocks "~~~\nx\n~~~\ny\n".toList, x.closed) ∧
      blocks ("~~~\nx\n~~~\ny\n".toList ++ "```\né".toList) =
        blocks "~~~\nx\n~~~\ny\n".toList ++ (blocks "```\né".toList).map
          (Block.shift (Text.utf8Size "~~~\nx\n~~~\ny\n".toList))) ∧
    Text.WholeLines "~~~\n~~~\n```\né\n".toList ∧
    ∃ x, (blocks "~~~\n~~~\n```\né\n".toList).getLast? = some x ∧ ¬ x.closed ∧
      ∃ y ys, blocks ("~~~\n~~~\n```\né\n".toList ++ "```\n~~~".toList) =
          (blocks "~~~\n~~~\n```\né\n".toList).filter (·.closed) ++ y :: ys ∧
        y.start = x.start ∧ x.text <+: y.text :=
  ⟨⟨by decide, by decide, (blocks_append (by decide) _).1 (by decide)⟩, by decide,
    ⟨⟨8, 15, "```\né\n".toList⟩, false⟩, by decide, by decide,
    (blocks_append (by decide) _).2 _ (by decide) (by decide)⟩

end MarkdownPrep.Fence
