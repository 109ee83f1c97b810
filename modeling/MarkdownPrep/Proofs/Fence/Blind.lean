import MarkdownPrep.Proofs.Fence.Line
import MarkdownPrep.Proofs.Fence.Place
import MarkdownPrep.Proofs.Stash.Blind

/-!
# Fences around tokens

Whether a line opens a fence or closes it is seen in every dress alike, so the fenced blocks of a
layer are the same in every dress (`exists_fence_cells`).
-/

namespace MarkdownPrep

/-- Characters that end no line are at the front of a line. -/
theorem Text.fullLines_append_of_not_mem {u : Text} (hu : u ≠ []) (h : '\n' ∉ u) (s : Text) :
    fullLines (u ++ s) = match fullLines s with
      | [] => [u]
      | l :: ls => (u ++ l) :: ls := by
  induction u with
  | nil => exact absurd rfl hu
  | cons c u ih =>
    rw [List.mem_cons, not_or] at h
    rw [List.cons_append, fullLines, if_neg (Ne.symm h.1)]
    rcases eq_or_ne u [] with rfl | hne
    · rfl
    · rw [ih hne h.2]
      cases fullLines s <;> rfl

namespace Stash

/-! ## Lines of layers -/

/-- The lines of a layer, each with the newline that ends it. -/
def lines : Layer → List Layer
  | [] => []
  | a :: as =>
    if a = .char '\n' then [a] :: lines as
    else match lines as with
      | [] => [[a]]
      | l :: ls => (a :: l) :: ls

theorem flatten_lines (as : Layer) : (lines as).flatten = as := by
  induction as with
  | nil => rfl
  | cons a as ih =>
    unfold lines
    split
    · simp [ih]
    · split <;> simp_all

/-- A line without the newline that ends it. -/
def unended (line : Layer) : Layer :=
  if line.getLast? = some (.char '\n') then line.dropLast else line

theorem plain_newline : Plain '\n' := plain_of_isSign (by decide)

namespace Dress

variable {d : Dress}

theorem fullLines_spell (hS : isPrivateUse d.sentinel) (as : Layer) :
    Text.fullLines (d.spell as) = (lines as).map d.spell := by
  induction as with
  | nil => rfl
  | cons a as ih =>
    rw [lines]
    cases a with
    | char c =>
      rw [spell_char_cons, Text.fullLines, ih]
      by_cases hc : c = '\n'
      · rw [if_pos hc, if_pos (congrArg _ hc)]
        rfl
      · rw [if_neg hc, if_neg (by simpa using hc)]
        cases lines as <;> rfl
    | token kind i =>
      have htok : token d.sentinel kind (d.number kind i) ≠ [] := by simp [token]
      rw [spell_token_cons, Text.fullLines_append_of_not_mem htok
        (plain_newline.not_mem_token hS _ _), ih, if_neg (by simp)]
      cases lines as with
      | nil => simp [spell_token_cons]
      | cons l ls => rfl

theorem spell_unended (hS : isPrivateUse d.sentinel) (line : Layer) :
    d.spell (unended line) = Text.dropOneEnd '\n' (d.spell line) := by
  have hlast : (d.spell line).getLast? = some '\n' ↔ line.getLast? = some (.char '\n') := by
    rw [getLast?_spell, last_eq_some_iff (plain_newline.ne hS)]
  unfold unended Text.dropOneEnd
  split
  · next h =>
    rw [if_pos (hlast.2 h)]
    obtain ⟨l, rfl⟩ := List.getLast?_eq_some_iff.1 h
    rw [List.dropLast_concat, spell_append]
    exact List.dropLast_concat.symm
  · next h => rw [if_neg (mt hlast.1 h)]

end Dress

/-! ## Fence lines -/

/-- A line of a layer that opens a fence. -/
def IsOpening (m : Char) (n : Nat) (line : Layer) : Prop :=
  Fence.IsMarker m ∧ 3 ≤ n ∧ ∃ k ≤ 3, ∃ info,
    line = plain (List.replicate k ' ' ++ List.replicate n m) ++ info ∧
      info.head? ≠ some (.char m) ∧ (m = '`' → .char '`' ∉ info)

theorem isOpening_spell_iff {d : Dress} (hS : isPrivateUse d.sentinel) {m : Char} {n : Nat}
    {line : Layer} : Fence.IsOpening m n (d.spell line) ↔ IsOpening m n line := by
  have hplain : ∀ {m}, Fence.IsMarker m → Plain m := fun hm => plain_of_isEdge hm.isEdge
  have hspace : Plain ' ' := plain_of_isEdge (by decide)
  constructor
  · rintro ⟨hm, hn, k, hk, info, hline, hhead, htick⟩
    have hno : d.sentinel ∉ List.replicate k ' ' ++ List.replicate n m := by
      simp only [List.mem_append, List.mem_replicate, not_or, not_and]
      exact ⟨fun _ => (hspace.ne hS).symm, fun _ => ((hplain hm).ne hS).symm⟩
    rw [← List.append_assoc] at hline
    obtain ⟨bs, rfl⟩ := (Dress.prefix_spell_iff hno).1 ⟨info, hline.symm⟩
    rw [Dress.spell_append, Dress.spell_plain] at hline
    obtain rfl := List.append_cancel_left hline
    refine ⟨hm, hn, k, hk, bs, rfl, fun h => hhead ?_, fun h hin => htick h ?_⟩
    · rw [Dress.head?_spell, h]
      rfl
    · exact (Dress.mem_spell_iff (plain_of_isEdge (by decide)) hS).2 hin
  · rintro ⟨hm, hn, k, hk, info, rfl, hhead, htick⟩
    refine ⟨hm, hn, k, hk, d.spell info, ?_, fun h => hhead ?_, fun h hin => htick h ?_⟩
    · rw [Dress.spell_append, Dress.spell_plain, List.append_assoc]
    · rwa [Dress.head?_spell, Dress.last_eq_some_iff ((hplain hm).ne hS)] at h
    · exact (Dress.mem_spell_iff (plain_of_isEdge (by decide)) hS).1 hin

/-- No sentinel stands in a closing line. -/
theorem sentinel_not_mem_of_isClosing {S m : Char} (hS : isPrivateUse S) (hm : Fence.IsMarker m)
    {n : Nat} {line : Text} (h : Fence.IsClosing m n line) : S ∉ line := by
  obtain ⟨k, -, j, -, t, rfl, hblank⟩ := h
  intro hin
  simp only [List.mem_append, List.mem_replicate] at hin
  rcases hin with ⟨-, heq⟩ | ⟨-, heq⟩ | hin
  · exact absurd heq.symm (Plain.ne (plain_of_isEdge (by decide)) hS)
  · exact absurd heq.symm (Plain.ne (plain_of_isEdge hm.isEdge) hS)
  · have hblank := hblank _ hin
    rw [not_isBlank_of_isPrivateUse hS] at hblank
    cases hblank

/-- A line of a layer that closes a fence has no token in it. -/
def IsClosing (m : Char) (n : Nat) (line : Layer) : Prop :=
  ∃ s, line = plain s ∧ Fence.IsClosing m n s

theorem isClosing_spell_iff {d : Dress} (hS : isPrivateUse d.sentinel) {m : Char}
    (hm : Fence.IsMarker m) {n : Nat} {line : Layer} :
    Fence.IsClosing m n (d.spell line) ↔ IsClosing m n line := by
  constructor
  · intro h
    rcases eq_plain_or_exists_token line with ⟨s, rfl⟩ | ⟨kind, i, hmem⟩
    · rw [Dress.spell_plain] at h
      exact ⟨s, rfl, h⟩
    · exact absurd (Dress.sentinel_mem_spell hmem) (sentinel_not_mem_of_isClosing hS hm h)
  · rintro ⟨s, rfl, h⟩
    rwa [Dress.spell_plain]

/-! ## Segments -/

/-- A segment of a layer. -/
inductive Stretch where
  | prose (line : Layer)
  | block (as : Layer) (closed : Bool)

/-- The layer of a segment. -/
def Stretch.layer : Stretch → Layer
  | prose line => line
  | block as _ => as

/-- The segment of a text that a segment of its layer is. -/
def Dress.segment (d : Dress) : Stretch → Fence.Segment
  | .prose line => .prose (d.spell line)
  | .block as closed => .block (d.spell as) closed

/-- **The segments of a layer are the same in every dress**, whether a block is open or not. -/
theorem exists_stretches (ls : List Layer) :
    (∃ segs : List Stretch, segs.flatMap Stretch.layer = ls.flatten ∧
      ∀ d : Dress, isPrivateUse d.sentinel →
        Fence.segmentsFrom none (ls.map d.spell) = segs.map d.segment) ∧
    ∀ (m : Char) (n : Nat) (as : Layer), Fence.IsMarker m → 3 ≤ n →
      ∃ segs : List Stretch, segs.flatMap Stretch.layer = as ++ ls.flatten ∧
        ∀ (d : Dress) (language : Option Text), isPrivateUse d.sentinel →
          Fence.segmentsFrom (some (⟨m, n, language⟩, d.spell as)) (ls.map d.spell) =
            segs.map d.segment := by
  induction ls with
  | nil =>
    exact ⟨⟨[], rfl, fun _ _ => rfl⟩,
      fun _ _ as _ _ => ⟨[.block as false], rfl, fun _ _ _ => rfl⟩⟩
  | cons l ls ih =>
    obtain ⟨⟨segs, hlayer, hsegs⟩, hstarted⟩ := ih
    refine ⟨?_, fun m n as hm hn => ?_⟩
    · by_cases h : ∃ m n, IsOpening m n (unended l)
      · obtain ⟨m, n, hopen⟩ := h
        obtain ⟨segs', hlayer', hsegs'⟩ := hstarted m n l hopen.1 hopen.2.1
        refine ⟨segs', hlayer', fun d hS => ?_⟩
        obtain ⟨language, hread⟩ := ((isOpening_spell_iff hS).2 hopen).opening?
        rw [Dress.spell_unended hS] at hread
        rw [List.map_cons, Fence.segmentsFrom, hread]
        exact hsegs' d language hS
      · refine ⟨.prose l :: segs, congrArg (l ++ ·) hlayer, fun d hS => ?_⟩
        have hread : Fence.opening? (Text.dropOneEnd '\n' (d.spell l)) = none := by
          refine Option.eq_none_iff_forall_ne_some.2 fun o ho => h ⟨o.marker, o.length, ?_⟩
          rw [← Dress.spell_unended hS] at ho
          exact (isOpening_spell_iff hS).1 (Fence.isOpening_of_opening? ho)
        rw [List.map_cons, Fence.segmentsFrom, hread]
        exact congrArg _ (hsegs d hS)
    · have hread : ∀ (d : Dress) (language : Option Text), isPrivateUse d.sentinel →
          ((⟨m, n, language⟩ : Fence.Opening).endsAt (Text.dropOneEnd '\n' (d.spell l)) ↔
            IsClosing m n (unended l)) := fun d language hS => by
        rw [← Dress.spell_unended hS, Fence.endsAt_iff hm hn]
        exact isClosing_spell_iff hS hm
      by_cases h : IsClosing m n (unended l)
      · refine ⟨.block (as ++ l) true :: segs, ?_, fun d language hS => ?_⟩
        · rw [List.flatMap_cons, hlayer, List.flatten_cons, Stretch.layer, List.append_assoc]
        rw [List.map_cons, Fence.segmentsFrom, if_pos ((hread d language hS).2 h), hsegs d hS]
        simp [Dress.segment]
      · obtain ⟨segs', hlayer', hsegs'⟩ := hstarted m n (as ++ l) hm hn
        refine ⟨segs', by rw [hlayer', List.flatten_cons, List.append_assoc], fun d language hS => ?_⟩
        have hsegs' := hsegs' d language hS
        rw [Dress.spell_append] at hsegs'
        rw [List.map_cons, Fence.segmentsFrom, if_neg (mt (hread d language hS).1 h), hsegs']

/-! ## Cells -/

/-- The cells of segments with the blocks found. -/
def Stretch.cells : List Stretch → List Cell
  | [] => []
  | .block as _ :: segs => .found as :: cells segs
  | .prose line :: .block as _ :: segs =>
    line.dropLast.map .kept ++ .found (.char '\n' :: as) :: cells segs
  | .prose line :: segs => line.map .kept ++ cells segs

section
variable {segs : List Stretch}
  (h : ∀ line, .prose line ∈ segs.dropLast → line.getLast? = some (.char '\n'))
include h

theorem Stretch.layer_cells : Cell.layer (Stretch.cells segs) = segs.flatMap Stretch.layer := by
  fun_induction Stretch.cells segs with
  | case1 => rfl
  | case2 as closed segs ih =>
    exact congrArg (as ++ ·) (ih fun line hl => h line (Fence.mem_dropLast_cons hl _))
  | case3 line as closed segs ih =>
    obtain ⟨l, rfl⟩ := List.getLast?_eq_some_iff.1 (h line (by simp))
    have ih := ih fun line hl => h line (Fence.mem_dropLast_cons (Fence.mem_dropLast_cons hl _) _)
    simp [Stretch.layer, ih]
  | case4 line segs hne ih =>
    have ih := ih fun line hl => h line (Fence.mem_dropLast_cons hl _)
    simp [Stretch.layer, ih]

theorem Stretch.pieces_cells (d : Dress) :
    d.pieces (Stretch.cells segs) = Fence.piecesOf (segs.map d.segment) := by
  fun_induction Stretch.cells segs with
  | case1 => rfl
  | case2 as closed segs ih =>
    rw [Dress.pieces_found, ih fun line hl => h line (Fence.mem_dropLast_cons hl _)]
    rfl
  | case3 line as closed segs ih =>
    obtain ⟨l, rfl⟩ := List.getLast?_eq_some_iff.1 (h line (by simp))
    rw [List.dropLast_concat, Dress.pieces_append, Dress.pieces_map_kept, Dress.pieces_found,
      ih fun line hl => h line (Fence.mem_dropLast_cons (Fence.mem_dropLast_cons hl _) _)]
    simp [Dress.segment, Fence.piecesOf]
  | case4 line segs hne ih =>
    have hcons : Fence.piecesOf (.prose (d.spell line) :: segs.map d.segment) =
        Piece.keep (d.spell line) ++ Fence.piecesOf (segs.map d.segment) := by
      cases segs with
      | nil => rfl
      | cons seg segs =>
        cases seg with
        | prose line' => rfl
        | block as closed => exact (hne as closed segs rfl).elim
    rw [Dress.pieces_append, Dress.pieces_map_kept,
      ih fun line hl => h line (Fence.mem_dropLast_cons hl _)]
    exact hcons.symm

end

/-- **The fenced blocks of a layer are the same in every dress.** -/
theorem exists_fence_cells (as : Layer) : ∃ (segs : List Stretch) (cs : List Cell),
    Cell.layer cs = as ∧ ∀ d : Dress, isPrivateUse d.sentinel →
      Fence.segments (d.spell as) = segs.map d.segment ∧
        Fence.pieces (d.spell as) = d.pieces cs := by
  obtain ⟨segs, hlayer, hsegs⟩ := (exists_stretches (lines as)).1
  rw [flatten_lines] at hlayer
  have hsegments : ∀ d : Dress, isPrivateUse d.sentinel →
      Fence.segments (d.spell as) = segs.map d.segment := fun d hS => by
    rw [Fence.segments, Dress.fullLines_spell hS, hsegs d hS]
  have hends : ∀ line, .prose line ∈ segs.dropLast → line.getLast? = some (.char '\n') := by
    intro line hl
    let d := Dress.own '\uE000'
    have hS : isPrivateUse d.sentinel := by decide
    have hsegment : d.segment (.prose line) ∈ (Fence.segments (d.spell as)).dropLast := by
      rw [hsegments d hS, ← List.map_dropLast]
      exact List.mem_map_of_mem hl
    have hspell : (d.spell line).getLast? = some '\n' :=
      Fence.getLast?_of_mem_dropLast_segmentsFrom
        (fun _ => Text.getLast?_of_mem_dropLast_fullLines) _ hsegment
    rwa [Dress.getLast?_spell, Dress.last_eq_some_iff (plain_newline.ne hS)] at hspell
  exact ⟨segs, Stretch.cells segs, by rw [Stretch.layer_cells hends, hlayer], fun d hS =>
    ⟨hsegments d hS, by rw [Fence.pieces, hsegments d hS, Stretch.pieces_cells hends]⟩⟩

end Stash

end MarkdownPrep
