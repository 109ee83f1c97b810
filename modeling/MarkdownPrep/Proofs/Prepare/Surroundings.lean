import MarkdownPrep.Proofs.Dollar.Reading
import MarkdownPrep.Proofs.Fence.Mask
import MarkdownPrep.Proofs.Prepare.Uniform
import MarkdownPrep.Proofs.Stash.Carry
import MarkdownPrep.Proofs.Verbatim.RoundTrip

/-!
# The surroundings of a fenced body

`Surroundings` are what stands around the body of a fenced block. When the text with a body is
masked, the block becomes one token, and the layers of what stands before and after it are the same
for every body but for the numbers of their tokens (`Surroundings.Mask`).
-/

namespace MarkdownPrep

open Stash

/-- A text with its display math put aside. -/
def Verbatim.withoutDisplayMath (s : Text) : Text :=
  ((Stash.forText s).hide .displayMath (displayMath s)).1

/-- What stands around the body of a fenced block. -/
structure Surroundings where
  before : Text
  opening : Text
  closing : Text
  after : Text
  /-- What the opening line opens. -/
  fence : Fence.Opening
  whole : Text.WholeLines before
  opens : Fence.opening? opening = some fence
  opening_line : '\n' ∉ opening
  closes : fence.endsAt closing
  closing_line : '\n' ∉ closing
  visible : Text.Visible after

namespace Surroundings

variable (r : Surroundings)

/-- The fenced block with a given body. -/
def block (body : Text) : Text := Fence.fenced r.opening body r.closing

/-- The text with a given body in the block. -/
def text (body : Text) : Text := r.before ++ (r.block body ++ r.after)

/-- A body of whole lines none of which closes the block, in a text with unified line ends. -/
structure IsBody (body : Text) : Prop where
  whole : Text.WholeLines body
  open_ : ∀ line ∈ Text.fullLines body, ¬ r.fence.endsAt (Text.dropOneEnd '\n' line)
  unified : '\r' ∉ r.text body

instance (body : Text) : Decidable (r.IsBody body) :=
  decidable_of_iff (Text.WholeLines body ∧
    (∀ line ∈ Text.fullLines body, ¬ r.fence.endsAt (Text.dropOneEnd '\n' line)) ∧ '\r' ∉ r.text body)
    ⟨fun ⟨h, h', h''⟩ => ⟨h, h', h''⟩, fun h => ⟨h.whole, h.open_, h.unified⟩⟩

/-- No display math reaches over the ends of the opening line or the end of the body. -/
def Parted (body : Text) : Prop :=
  Text.Parted Verbatim.displayRecogniser
    [r.before, r.opening ++ ['\n'], body, r.closing ++ '\n' :: r.after]

/-- A body that does not change how the text around it is read. -/
structure Admits (body : Text) : Prop extends r.IsBody body where
  parted : r.Parted body
  fresh : ∃ c, isPrivateUse c ∧ c ∉ r.text body
  clean : ∀ kind i, ¬ tokenBody kind i <:+: r.text body

/-! ## Display math -/

/-- The cells of a text with its display math found. -/
def displayCells (s : Text) : List Cell := Cell.ofPieces (Verbatim.displayMath s)

@[simp] theorem layer_displayCells (s : Text) : Cell.layer (displayCells s) = plain s := by
  rw [displayCells, Cell.layer_ofPieces, Verbatim.sources_displayMath]

@[simp] theorem pieces_displayCells (S : Char) (s : Text) :
    Cell.pieces S (displayCells s) = Verbatim.displayMath s := Cell.pieces_ofPieces S

@[simp] theorem renumber_displayCells (φ : Kind → Nat → Nat) (s : Text) :
    Cell.renumber φ (displayCells s) = displayCells s := Cell.renumber_ofPieces

theorem dollared_displayCells (s : Text) : Dollared (displayCells s) := by
  intro m hm
  rw [displayCells, Cell.founds_ofPieces] at hm
  obtain ⟨t, ht, rfl⟩ := List.mem_map.1 hm
  obtain ⟨body, rfl⟩ :=
    Piece.forall_founds_of_placed (Text.placed_enclosed (by decide) "$$".toList s) t ht
  have hsplit : "$$".toList ++ body ++ "$$".toList = ("$$".toList ++ body ++ ['$']) ++ ['$'] := by
    simp
  refine ⟨rfl, ?_⟩
  rw [hsplit, plain_append]
  exact List.getLast?_concat

theorem dollar_not_mem_closing : '$' ∉ r.closing ++ ['\n'] := by
  obtain ⟨hm, hn, -⟩ := Fence.opening?_eq_some r.opens
  obtain ⟨k, -, j, -, t, hline, hblank⟩ := (Fence.endsAt_iff hm hn).1 r.closes
  rw [hline]
  simp only [List.mem_append, List.mem_replicate, List.mem_singleton]
  rintro ((⟨-, h⟩ | ⟨-, h⟩ | h) | h)
  · cases h
  · rcases hm with hm | hm <;> rw [hm] at h <;> cases h
  · exact absurd (hblank _ h) (by decide)
  · cases h

/-- The cells of the opening line and the body with their display math found. -/
def bodyCells (body : Text) : List Cell :=
  displayCells (r.opening ++ ['\n']) ++ displayCells body

/-- The cells of the text with its display math found. -/
def cells (body : Text) : List Cell :=
  displayCells r.before ++ (r.bodyCells body ++
    (Cell.ofPieces (Piece.keep (r.closing ++ ['\n'])) ++ displayCells r.after))

/-- The number of stretches of display math in the text. -/
def displayCount (body : Text) : Nat := (Cell.founds (r.cells body)).length

theorem layer_cells (body : Text) : Cell.layer (r.cells body) = plain (r.text body) := by
  simp [cells, bodyCells, text, block, Fence.fenced]

/-- The display math of the text is that of its parts. -/
theorem pieces_cells {body : Text} (h : r.Admits body) (S : Char) :
    Cell.pieces S (r.cells body) = Verbatim.displayMath (r.text body) := by
  have hcut := h.parted.cut_eq Verbatim.honest_displayRecogniser (Recogniser.single_enclosed _ _)
    (Recogniser.stable_enclosed _ (by decide)) (fun _ _ _ => rfl)
  have htext : [r.before, r.opening ++ ['\n'], body, r.closing ++ '\n' :: r.after].flatten =
      r.text body := by simp [text, block, Fence.fenced]
  have hclosing : Text.cut Verbatim.displayRecogniser (r.closing ++ '\n' :: r.after) =
      Piece.keep (r.closing ++ ['\n']) ++ Verbatim.displayMath r.after := by
    have hkeep := Text.cutAfter_append_of_none (r := Verbatim.displayRecogniser) (x := [])
      (u := r.closing ++ ['\n']) (v := r.after) fun y c w hu => by
        refine Verbatim.displayRecogniser_eq_none (.inl ?_)
        rintro rfl
        exact r.dollar_not_mem_closing (by rw [hu]; simp)
    rw [Text.cutAfter_congr (fun _ _ _ => rfl), Text.cutAfter_congr (fun _ _ _ => rfl),
      List.append_assoc] at hkeep
    exact hkeep
  rw [htext] at hcut
  rw [Verbatim.displayMath, hcut, cells, bodyCells]
  simp only [List.map_cons, List.map_nil, List.flatten_cons, List.flatten_nil, hclosing,
    Cell.pieces_append, pieces_displayCells, Cell.pieces_ofPieces, List.append_nil,
    List.append_assoc]
  rfl

/-! ## Layers before and after -/

/-- The layer before the block, its display math put aside. -/
def front : Layer := Cell.hidden .displayMath 0 (displayCells r.before)

/-- The number of stretches of display math before the block. -/
def ahead : Nat := (Cell.founds (displayCells r.before)).length

/-- The layer after the block, its display math put aside and counted on from that before. -/
def rear : Layer := Cell.hidden .displayMath r.ahead (displayCells r.after)

/-- The layer of the block, its display math put aside. -/
def blockLayer (body : Text) : Layer :=
  Cell.hidden .displayMath r.ahead (r.bodyCells body) ++ plain (r.closing ++ ['\n'])

/-- The block with its display math put aside is a fenced block still. -/
theorem exists_fenced {body : Text} (h : r.Admits body) {S : Char} (hS : isPrivateUse S) :
    ∃ (f b : Text) (o : Fence.Opening), spell S (r.blockLayer body) = Fence.fenced f b r.closing ∧
      Fence.opening? f = some o ∧ '\n' ∉ f ∧ Text.WholeLines b ∧
      (∀ line ∈ Text.fullLines b, ¬ o.endsAt (Text.dropOneEnd '\n' line)) ∧
      o.endsAt r.closing := by
  obtain ⟨hm, hn, -⟩ := Fence.opening?_eq_some r.opens
  have hline : Cell.layer (displayCells (r.opening ++ ['\n'])) =
      plain r.opening ++ [.char '\n'] := by simp
  obtain ⟨cs, hcs, hlayer, hdollar⟩ :=
    Cell.exists_concat_kept (dollared_displayCells (r.opening ++ ['\n'])) hline
  have hsound : Sound '\n' (Cell.layer cs) := by
    rw [hlayer, sound_plain]
    exact r.opening_line
  have hopening : IsOpening r.fence.marker r.fence.length (Cell.hidden .displayMath r.ahead cs) :=
    isOpening_hidden hdollar hlayer (Fence.isOpening_of_opening? r.opens)
  have hbody := dollared_displayCells body
  rw [← isOpening_spell_iff (d := Dress.own S) hS, Dress.spell_own] at hopening
  obtain ⟨language, hread⟩ := hopening.opening?
  refine ⟨_, spell S (Cell.hidden .displayMath
      (r.ahead + (Cell.founds (cs ++ [.kept (.char '\n')])).length) (displayCells body)),
    _, ?_, hread, ?_,
    wholeLines_hidden hbody (layer_displayCells body) h.whole,
    not_endsAt_of_mem_hidden hbody hS (layer_displayCells body) h.whole hm hn h.open_, r.closes⟩
  · rw [blockLayer, bodyCells, Cell.hidden_append, hcs, Cell.hidden_append]
    simp [Cell.hidden, Fence.fenced]
  · rw [← Dress.spell_own, Dress.mem_spell_iff plain_newline hS]
    exact Cell.sound_hidden hsound

/-- The cells of the front with its fenced blocks found. A newline at its end is found with the block
that follows. -/
structure Mask where
  newline : Text
  fencesBefore : List Cell
  fencesAfter : List Cell
  code : List Cell
  layer_fencesBefore : Cell.layer fencesBefore ++ plain newline = r.front
  layer_fencesAfter : Cell.layer fencesAfter = r.rear
  pieces_fencesBefore : ∀ (d : Dress) (t : Text), isPrivateUse d.sentinel →
    Fence.withBlock (Fence.pieces (d.spell r.front)) t =
      d.pieces fencesBefore ++ [.found (newline ++ t)]
  pieces_fencesAfter : ∀ d : Dress, isPrivateUse d.sentinel →
    Fence.pieces (d.spell r.rear) = d.pieces fencesAfter
  closed : ∀ (d : Dress) (t : Text), isPrivateUse d.sentinel →
    .block t false ∉ Fence.segments (d.spell r.front)
  layer_code : Cell.layer code =
    Cell.hidden .fencedCode 0 (fencesBefore ++ .found [] :: fencesAfter)
  pieces_code : ∀ d : Dress, d.Fits (Cell.layer code) →
    Verbatim.inlineCode (d.spell (Cell.layer code)) = d.pieces code

/-- A newline at the end of a layer is found with the block that follows in every dress. -/
theorem exists_withBlock (cs : List Cell) : ∃ (ds : List Cell) (newline : Text),
    Cell.layer ds ++ plain newline = Cell.layer cs ∧
      ∀ (d : Dress) (t : Text), isPrivateUse d.sentinel →
        Fence.withBlock (d.pieces cs) t = d.pieces ds ++ [.found (newline ++ t)] := by
  by_cases h : cs.getLast? = some (.kept (.char '\n'))
  · obtain ⟨ds, rfl⟩ := List.getLast?_eq_some_iff.1 h
    refine ⟨ds, ['\n'], by simp, fun d t _ => ?_⟩
    have hpieces : d.pieces (ds ++ [.kept (.char '\n')]) = d.pieces ds ++ [.kept '\n'] := by
      rw [Dress.pieces_append]
      rfl
    rw [hpieces, Fence.withBlock, if_pos List.getLast?_concat, List.dropLast_concat]
    rfl
  · refine ⟨cs, [], List.append_nil _, fun d t hS => ?_⟩
    rw [Fence.withBlock, if_neg]
    · rfl
    rcases cs.eq_nil_or_concat with rfl | ⟨cs, c, rfl⟩
    · simp
    rw [List.concat_eq_append, Dress.pieces_append, List.getLast?_append]
    rw [List.concat_eq_append, List.getLast?_concat] at h
    cases c with
    | found m => simp [Dress.pieces_found]
    | kept a =>
      have hlast : (d.pieces [.kept a]).getLast? = (d.last (some a)).map .kept := by
        rw [Dress.pieces_kept, Dress.pieces_nil, List.append_nil, Piece.keep, List.getLast?_map,
          Dress.getLast?_spell]
        rfl
      intro hnewline
      rw [hlast] at hnewline
      cases a with
      | char b =>
        cases hnewline
        exact h rfl
      | token kind i =>
        have hsentinel : d.sentinel = '\n' := by simpa [Dress.last] using hnewline
        exact plain_newline.ne hS hsentinel.symm

/-- All blocks are closed if none is left open. -/
theorem not_mem_segments {segs : List Fence.Segment} {n : Nat}
    (h : ∀ block ∈ Fence.blocksFrom n segs, block.closed) (t : Text) : .block t false ∉ segs := by
  induction segs generalizing n with
  | nil => simp
  | cons seg segs ih =>
    cases seg with
    | prose line =>
      intro hm
      exact ih h ((List.mem_cons.1 hm).resolve_left (by simp))
    | block u closed =>
      rw [Fence.blocksFrom, List.forall_mem_cons] at h
      intro hm
      rcases List.mem_cons.1 hm with hm | hm
      · cases hm
        exact absurd h.1 (by simp)
      · exact ih h.2 hm

theorem withoutDisplayMath_before : Verbatim.withoutDisplayMath r.before =
    (Dress.own r.before.unusedPrivate).spell r.front := by
  have hhide := hide_pieces (S := r.before.unusedPrivate) .displayMath (displayCells r.before) []
  rw [pieces_displayCells] at hhide
  rw [Verbatim.withoutDisplayMath, Dress.spell_own]
  exact congrArg Prod.fst hhide

/-- The layers before and after the block are the same in every dress, if no block before it is left
open once display math is put aside. -/
theorem exists_mask
    (hclosed : ∀ block ∈ Fence.blocks (Verbatim.withoutDisplayMath r.before), block.closed) :
    Nonempty r.Mask := by
  obtain ⟨segs, cs, hcs, hfront⟩ := exists_fence_cells r.front
  obtain ⟨_, fencesAfter, hlayer, hrear⟩ := exists_fence_cells r.rear
  obtain ⟨fencesBefore, newline, hbefore, hblock⟩ := exists_withBlock cs
  obtain ⟨code, hcode, -, hpieces⟩ := uniform_inlineCode
    (Cell.hidden .fencedCode 0 (fencesBefore ++ .found [] :: fencesAfter))
  exact ⟨{
    newline := newline
    fencesBefore := fencesBefore
    fencesAfter := fencesAfter
    code := code
    layer_fencesBefore := by rw [hbefore, hcs]
    layer_fencesAfter := hlayer
    pieces_fencesBefore := fun d t hS => by rw [(hfront d hS).2, hblock d t hS]
    pieces_fencesAfter := fun d hS => (hrear d hS).2
    closed := fun d t hS hm => by
      let d₀ := Dress.own r.before.unusedPrivate
      have hclosed := not_mem_segments (withoutDisplayMath_before r ▸ hclosed)
      rw [(hfront d hS).1] at hm
      rw [(hfront d₀ (isPrivateUse_unusedPrivate _)).1] at hclosed
      obtain ⟨seg, hseg, heq⟩ := List.mem_map.1 hm
      cases seg with
      | prose line => cases heq
      | block as closed =>
        cases heq
        exact hclosed (d₀.spell as) (List.mem_map.2 ⟨_, hseg, rfl⟩)
    layer_code := hcode
    pieces_code := by rwa [hcode] }⟩

/-! ## The text with its verbatim text put aside -/

namespace Mask

variable {r} (M : r.Mask)

/-- The layer with display math put aside, its fenced blocks found, where the block is `as`. -/
def fences (φ : Kind → Nat → Nat) (as : Layer) : List Cell :=
  Cell.renumber φ M.fencesBefore ++
    .found (plain M.newline ++ as) :: Cell.renumber φ M.fencesAfter

/-- The number of fenced blocks. -/
def fenceCount : Nat := (Cell.founds M.fencesBefore).length + 1 + (Cell.founds M.fencesAfter).length

/-- The masked layer. -/
def masked : Layer := Cell.hidden .inlineCode M.fenceCount M.code

/-- The numbers of tokens in the text with a given body. -/
def number (body : Text) : Kind → Nat → Nat
  | .displayMath, i => if i < r.ahead then i else i + (Cell.founds (r.bodyCells body)).length
  | .fencedCode, i => r.displayCount body + i
  | .inlineCode, i => r.displayCount body + i
  | .currency, i => i
  | .inlineMath, i => r.displayCount body + M.fenceCount + (Cell.founds M.code).length + i
  | .mathBlock, i => r.displayCount body + M.fenceCount + (Cell.founds M.code).length + i

/-- What is put aside of the text with a given body. -/
def verbatim (body : Text) : Store :=
  stored .inlineCode (Cell.renumber (M.number body) M.code)
    (stored .fencedCode (M.fences (M.number body) (r.blockLayer body))
      (stored .displayMath (r.cells body) []))

variable {body : Text}

theorem renumber_front : renumber (M.number body) r.front = r.front := by
  have hfront : Cell.hidden .displayMath 0 (Cell.renumber (M.number body) (displayCells r.before)) =
      renumber (M.number body) (Cell.hidden .displayMath 0 (displayCells r.before)) :=
    Cell.hidden_renumber fun k hk => by
      rw [Nat.zero_add]
      exact if_pos hk
  rw [renumber_displayCells] at hfront
  exact hfront.symm

theorem hidden_cells : Cell.hidden .displayMath 0 (r.cells body) =
    r.front ++ (r.blockLayer body ++ renumber (M.number body) r.rear) := by
  have hrear : Cell.hidden .displayMath (r.ahead + (Cell.founds (r.bodyCells body)).length)
      (Cell.renumber (M.number body) (displayCells r.after)) =
      renumber (M.number body) (Cell.hidden .displayMath r.ahead (displayCells r.after)) :=
    Cell.hidden_renumber fun k _ => by
      have hnot : ¬ r.ahead + k < r.ahead := by omega
      rw [number, if_neg hnot]
      omega
  have hclosing : ∀ n, Cell.hidden .displayMath n
      (Cell.ofPieces (Piece.keep (r.closing ++ ['\n']))) = plain (r.closing ++ ['\n']) := fun n => by
    rw [Cell.hidden_eq_layer (by simp), Cell.layer_ofPieces, Piece.sources_keep]
  rw [renumber_displayCells] at hrear
  rw [cells, Cell.hidden_append, Cell.hidden_append, Cell.hidden_append, hclosing, blockLayer, rear,
    ← hrear, front, ahead]
  simp

theorem layer_fences : Cell.layer (M.fences (M.number body) (r.blockLayer body)) =
    Cell.hidden .displayMath 0 (r.cells body) := by
  have hfront : renumber (M.number body) r.front = r.front := M.renumber_front
  rw [← M.layer_fencesBefore, renumber_append, renumber_plain] at hfront
  rw [M.hidden_cells, ← M.layer_fencesBefore, ← M.layer_fencesAfter, ← hfront, fences]
  simp

theorem length_founds_fences {φ : Kind → Nat → Nat} {as : Layer} :
    (Cell.founds (M.fences φ as)).length = M.fenceCount := by
  simp [fences, fenceCount, Nat.add_comm 1, Nat.add_assoc]

theorem pieces_fences (h : r.Admits body) {S : Char} (hS : isPrivateUse S) :
    Cell.pieces S (M.fences (M.number body) (r.blockLayer body)) =
      Fence.pieces (spell S (Cell.hidden .displayMath 0 (r.cells body))) := by
  let d : Dress := ⟨S, M.number body⟩
  obtain ⟨f, b, o, hblock, hopen, hfline, hwhole, hno, hclose⟩ := r.exists_fenced h hS
  have hfront : d.spell r.front = spell S r.front := congrArg (spell S) M.renumber_front
  have hlines : Text.WholeLines (d.spell r.front) := by
    rw [hfront]
    exact wholeLines_hidden (dollared_displayCells r.before) (layer_displayCells _) r.whole
  have hfound := Fence.pieces_append_fenced hlines (fun t => M.closed d t hS) hopen hfline hwhole
    hno hclose r.closing_line (d.spell r.rear)
  rw [← hblock, M.pieces_fencesBefore d _ hS, M.pieces_fencesAfter d hS, hfront] at hfound
  rw [M.hidden_cells, spell_append, spell_append]
  refine Eq.trans ?_ hfound.symm
  rw [fences, Cell.pieces_append, Cell.pieces_found, spell_append, spell_plain, List.append_assoc]
  rfl

theorem layer_code_renumber : Cell.layer (Cell.renumber (M.number body) M.code) =
    Cell.hidden .fencedCode (r.displayCount body)
      (M.fences (M.number body) (r.blockLayer body)) := by
  have hfences : Cell.hidden .fencedCode (r.displayCount body)
      (Cell.renumber (M.number body) (M.fencesBefore ++ .found [] :: M.fencesAfter)) =
      renumber (M.number body)
        (Cell.hidden .fencedCode 0 (M.fencesBefore ++ .found [] :: M.fencesAfter)) :=
    Cell.hidden_renumber fun k _ => by rw [number, Nat.zero_add]
  rw [Cell.layer_renumber, M.layer_code, ← hfences, fences]
  simp [Cell.hidden_append, Cell.hidden]

theorem renumber_masked : renumber (M.number body) M.masked =
    Cell.hidden .inlineCode (r.displayCount body + M.fenceCount)
      (Cell.renumber (M.number body) M.code) := by
  symm
  apply Cell.hidden_renumber
  intro k _
  rw [number, Nat.add_assoc]

/-- **What is put aside of the text with a body**, and what is left of it. -/
theorem holds_verbatim (h : r.Admits body) :
    hideVerbatim (r.text body) =
      (spell (r.text body).unusedPrivate (renumber (M.number body) M.masked),
        ⟨(r.text body).unusedPrivate, spellAll (r.text body).unusedPrivate (M.verbatim body)⟩) ∧
    Holds (r.text body) (M.verbatim body) (renumber (M.number body) M.masked) := by
  have hS := isPrivateUse_unusedPrivate (r.text body)
  obtain ⟨ds, hlayer, hpieces, hmath, hold⟩ := Holds.nil.exists_hide hS .displayMath
    (by rw [Verbatim.sources_displayMath, spell_plain]) (Verbatim.framed_displayMath (r.text body))
  obtain rfl : ds = r.cells body :=
    Cell.eq_of_pieces (hlayer.trans (r.layer_cells body).symm) (hpieces.trans (r.pieces_cells h _).symm)
  obtain ⟨fs, hlayer, hpieces, hfences, hold⟩ := hold.exists_hide hS .fencedCode
    (Fence.sources_pieces _) (Fence.framed_pieces _)
  obtain rfl : fs = M.fences (M.number body) (r.blockLayer body) :=
    Cell.eq_of_pieces (hlayer.trans M.layer_fences.symm) (hpieces.trans (M.pieces_fences h hS).symm)
  have hcount : (stored .displayMath (r.cells body) []).length = r.displayCount body := by
    rw [length_stored, List.length_nil, Nat.zero_add, displayCount]
  have hsound : Sound (r.text body).unusedPrivate (Cell.layer M.code) := by
    rw [← sound_renumber (φ := M.number body), ← Cell.layer_renumber, M.layer_code_renumber, ← hcount]
    exact hold.sound (unusedPrivate_not_mem h.fresh)
  obtain ⟨cs, hlayer, hpieces, hcode, hold⟩ := hold.exists_hide hS .inlineCode
    (Verbatim.sources_inlineCode _) (Verbatim.framed_inlineCode _)
  rw [hcount, ← M.layer_code_renumber] at hlayer hpieces
  obtain rfl : cs = Cell.renumber (M.number body) M.code := by
    refine Cell.eq_of_pieces hlayer (hpieces.trans ?_)
    rw [Cell.layer_renumber]
    exact M.pieces_code ⟨_, M.number body⟩ ⟨hS, hsound⟩
  have hcount' : (stored .fencedCode (M.fences (M.number body) (r.blockLayer body))
      (stored .displayMath (r.cells body) [])).length = r.displayCount body + M.fenceCount := by
    rw [length_stored, hcount, M.length_founds_fences]
  rw [hcount', ← M.renumber_masked] at hold hcode
  refine ⟨?_, hold⟩
  rw [hideVerbatim, forText]
  dsimp only
  rw [spellAll_nil] at hmath
  rw [hmath]
  dsimp only
  rw [hfences]
  exact hcode

end Mask

end Surroundings

end MarkdownPrep
