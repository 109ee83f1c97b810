import MarkdownPrep.Proofs.Prepare.Layering
import MarkdownPrep.Proofs.Prepare.Uniform
import MarkdownPrep.Proofs.Stash.Carry

/-!
# The course of the passes

`Course as` says what the passes make of a masked layer in every dress. A text whose masked layer is
`as` with other numbers (`Layering.Follows`) takes this course: before verbatim text is given back,
its layer is the outcome of the course with other numbers (`Layering.Follows.amountsBack_eq`).
-/

namespace MarkdownPrep

open Stash

/-- What the passes make of a layer, whatever its tokens are called. -/
structure Course (as : Layer) where
  /-- The layer with its amounts found. -/
  amounts : List Cell
  /-- The amounts. -/
  prices : List Text
  /-- The layer without amounts, its brackets made dollars. -/
  dollars : Layer
  /-- That layer with its dollar blocks found. -/
  blocks : List Cell
  /-- The layer without dollar blocks with its dollar spans found. -/
  spans : List Cell
  /-- The layer without dollar spans, bare math wrapped and literal dollars escaped. -/
  settled : Layer
  layer_amounts : Cell.layer amounts = as
  founds_amounts : Cell.founds amounts = prices.map plain
  pieces_amounts : ∀ d : Dress, d.Fits as → Amount.amounts (d.spell as) = d.pieces amounts
  retouched_dollars : Retouched (Cell.hidden .currency 0 amounts) dollars
  toDollars_eq : ∀ d : Dress, d.Fits (Cell.hidden .currency 0 amounts) →
    Delimiter.toDollars (d.spell (Cell.hidden .currency 0 amounts)) = d.spell dollars
  layer_blocks : Cell.layer blocks = dollars
  pieces_blocks : ∀ d : Dress, d.Fits dollars →
    Verbatim.displayMath (d.spell dollars) = d.pieces blocks
  layer_spans : Cell.layer spans = Cell.hidden .mathBlock 0 blocks
  pieces_spans : ∀ d : Dress, d.Fits (Cell.layer spans) →
    Verbatim.inlineMath (d.spell (Cell.layer spans)) = d.pieces spans
  retouched_settled :
    Retouched (Cell.hidden .inlineMath (stored .mathBlock blocks []).length spans) settled
  settled_eq : ∀ d : Dress,
    d.Fits (Cell.hidden .inlineMath (stored .mathBlock blocks []).length spans) →
    Dollar.escapeLiteral d.sentinel (wrapBareMath d.sentinel
      (d.spell (Cell.hidden .inlineMath (stored .mathBlock blocks []).length spans))) =
      d.spell settled

theorem exists_map_plain {ms : List Layer} (h : ∀ m ∈ ms, ∃ t, m = plain t) :
    ∃ ts : List Text, ms = ts.map plain := by
  induction ms with
  | nil => exact ⟨[], rfl⟩
  | cons m ms ih =>
    rw [List.forall_mem_cons] at h
    obtain ⟨⟨t, rfl⟩, h⟩ := h
    obtain ⟨ts, rfl⟩ := ih h
    exact ⟨t :: ts, rfl⟩

/-- **The passes take one course in every dress.** -/
theorem exists_course (as : Layer) : Nonempty (Course as) := by
  obtain ⟨amounts, hal, hplain, hap⟩ := uniform_amounts as
  obtain ⟨prices, hprices⟩ := exists_map_plain hplain
  obtain ⟨dollars, hrd, hd⟩ := rewrites_toDollars (Cell.hidden .currency 0 amounts)
  obtain ⟨blocks, hbl, -, hbp⟩ := uniform_displayMath dollars
  obtain ⟨spans, hsl, -, hsp⟩ := uniform_inlineMath (Cell.hidden .mathBlock 0 blocks)
  obtain ⟨settled, hrs, hs⟩ := rewrites_wrapBareMath.comp rewrites_escapeLiteral
    (Cell.hidden .inlineMath (stored .mathBlock blocks []).length spans)
  exact ⟨{
    amounts := amounts
    prices := prices
    dollars := dollars
    blocks := blocks
    spans := spans
    settled := settled
    layer_amounts := hal
    founds_amounts := hprices
    pieces_amounts := hap
    retouched_dollars := hrd
    toDollars_eq := hd
    layer_blocks := hbl
    pieces_blocks := hbp
    layer_spans := hsl
    pieces_spans := by rwa [hsl]
    retouched_settled := hrs
    settled_eq := hs }⟩

namespace Course

variable {as : Layer} (c : Course as)

/-- The layer without amounts. -/
def unamounted : Layer := Cell.hidden .currency 0 c.amounts

/-- The layer without dollar spans. -/
def unspanned : Layer :=
  Cell.hidden .inlineMath (stored .mathBlock c.blocks []).length c.spans

/-- The math that was put aside. -/
def store : Store := stored .inlineMath c.spans (stored .mathBlock c.blocks [])

/-- The amounts with their dollars escaped. -/
def escapedStore : Store := (c.prices.map fun t => (.currency, plain (escapeDollars t))).reverse

/-- Math given back in the settled layer. -/
def mathBack : Layer := giveBackIn (isOneOf mathKinds) c.store c.settled

/-- Amounts given back after that. -/
def amountsBack : Layer := giveBackIn (fun _ => true) c.escapedStore c.mathBack

/-! ## The outcome is the layer retouched -/

section
variable (h : ∀ kind i, .token kind i ∈ as → kind ∈ verbatimKinds)
include h

theorem giveBackIn_amounts :
    giveBackIn (fun _ => true) (stored .currency c.amounts []) c.unamounted = as := by
  have hnot : ∀ i, .token .currency i ∉ Cell.layer c.amounts := by
    intro i hi
    rw [c.layer_amounts] at hi
    exact absurd (h _ i hi) (by decide)
  exact (giveBackIn_hidden_of_not_mem rfl hnot []).trans c.layer_amounts

theorem not_mem_dollars {kind : Kind} (hkind : kind ∈ mathKinds) (i : Nat) :
    .token kind i ∉ c.dollars := by
  intro hm
  have hdisjoint : ∀ kind ∈ mathKinds, kind ≠ .currency ∧ kind ∉ verbatimKinds := by decide
  obtain ⟨hcurrency, hverbatim⟩ := hdisjoint kind hkind
  rw [c.retouched_dollars.token_mem_iff] at hm
  rcases Cell.token_mem_hidden hm with hk | hm
  · exact hcurrency hk
  · rw [c.layer_amounts] at hm
    exact hverbatim (h kind i hm)

theorem giveBackIn_math : giveBackIn (isOneOf mathKinds) c.store c.unspanned = c.dollars := by
  have hnot : ∀ kind ∈ mathKinds, ∀ i, .token kind i ∉ Cell.layer c.blocks := by
    intro kind hk i hi
    rw [c.layer_blocks] at hi
    exact c.not_mem_dollars h hk i hi
  exact (giveBackIn_spans_blocks c.layer_spans hnot).trans c.layer_blocks

theorem retouched_mathBack : Retouched c.dollars c.mathBack := by
  rw [← c.giveBackIn_math h]
  exact c.retouched_settled.giveBackIn (.refl _)

omit h in
theorem retouched_escapedStore :
    RetouchedStore (stored .currency c.amounts []) c.escapedStore := by
  rw [stored, c.founds_amounts, escapedStore, List.append_nil, RetouchedStore,
    List.forall₂_reverse_iff, List.map_map, List.forall₂_map_left_iff, List.forall₂_map_right_iff]
  exact List.forall₂_same.2 fun t _ => ⟨rfl, retouched_escapeDollars t⟩

/-- **The outcome of the course is its layer retouched.** -/
theorem retouched_amountsBack : Retouched as c.amountsBack := by
  have hback := (c.retouched_dollars.trans (c.retouched_mathBack h)).giveBackIn
    (p := fun _ => true) c.retouched_escapedStore
  rwa [← unamounted, c.giveBackIn_amounts h] at hback

end

end Course

namespace Layering

variable {as : Layer} {n : Text} {L : Layering n} {c : Course as} {φ : Kind → Nat → Nat}

/-- A text whose masked layer is that of a course, with numbers from which those of amounts and math
follow. -/
structure Follows (L : Layering n) (c : Course as) (φ : Kind → Nat → Nat) : Prop where
  fresh : n.unusedPrivate ∉ n
  masked : L.masked = renumber φ as
  amounts : ∀ i, φ .currency i = i
  math : ∀ kind ∈ mathKinds, ∀ i, φ kind i = L.verbatim.length + i

/-- Numbered tokens with the sentinel of a text. -/
def dress (n : Text) (φ : Kind → Nat → Nat) : Dress := ⟨n.unusedPrivate, φ⟩

theorem sentinel_dress : (dress n φ).sentinel = n.unusedPrivate := rfl

theorem spell_dress (as : Layer) :
    (dress n φ).spell as = spell n.unusedPrivate (renumber φ as) := rfl

theorem pieces_dress (cs : List Cell) :
    (dress n φ).pieces cs = Cell.pieces n.unusedPrivate (Cell.renumber φ cs) := rfl

theorem fits_dress {bs : Layer} : (dress n φ).Fits bs ↔ Sound n.unusedPrivate bs :=
  and_iff_right (isPrivateUse_unusedPrivate n)

namespace Follows

theorem amounts_eq (h : L.Follows c φ) : L.amounts = Cell.renumber φ c.amounts := by
  have hlayer : Cell.layer L.amounts = Cell.layer (Cell.renumber φ c.amounts) := by
    rw [L.layer_amounts, h.masked, Cell.layer_renumber, c.layer_amounts]
  have hsound : Sound n.unusedPrivate as := by
    rw [← sound_renumber (φ := φ), ← h.masked]
    exact L.holds.sound h.fresh
  refine Cell.eq_of_pieces (S := n.unusedPrivate) hlayer ?_
  rw [L.pieces_amounts, h.masked, ← spell_dress, c.pieces_amounts _ (fits_dress.2 hsound),
    pieces_dress]

theorem unamounted_eq (h : L.Follows c φ) : L.unamounted = renumber φ c.unamounted := by
  rw [unamounted, h.amounts_eq]
  exact Cell.hidden_renumber fun k _ => h.amounts (0 + k)

theorem dollars_eq (h : L.Follows c φ) : L.dollars = renumber φ c.dollars := by
  have hS := isPrivateUse_unusedPrivate n
  have hsound : Sound n.unusedPrivate c.unamounted := by
    rw [← sound_renumber (φ := φ), ← h.unamounted_eq]
    exact L.sound_unamounted h.fresh
  refine spell_inj (not_isTokenChar_of_isPrivateUse hS) (L.sound_dollars h.fresh) ?_ ?_
  · exact sound_renumber.2 (c.retouched_dollars.sound (not_isSign_of_isPrivateUse hS) hsound)
  · rw [← L.toDollars_eq, h.unamounted_eq, ← spell_dress, ← spell_dress]
    exact c.toDollars_eq _ (fits_dress.2 hsound)

theorem blocks_eq (h : L.Follows c φ) : L.blocks = Cell.renumber φ c.blocks := by
  have hsound : Sound n.unusedPrivate c.dollars := by
    rw [← sound_renumber (φ := φ), ← h.dollars_eq]
    exact L.sound_dollars h.fresh
  refine Cell.eq_of_pieces (S := n.unusedPrivate) ?_ ?_
  · rw [Cell.layer_renumber, c.layer_blocks]
    exact h.dollars_eq
  · rw [L.pieces_dollars, h.dollars_eq, ← spell_dress, c.pieces_blocks _ (fits_dress.2 hsound),
      pieces_dress]

theorem layer_spans_eq (h : L.Follows c φ) :
    Cell.layer L.spans = renumber φ (Cell.layer c.spans) := by
  rw [L.layer_spans, h.blocks_eq, c.layer_spans]
  refine Cell.hidden_renumber fun k _ => ?_
  rw [h.math .mathBlock (by decide), Nat.zero_add]

theorem spans_eq (h : L.Follows c φ) : L.spans = Cell.renumber φ c.spans := by
  have hsound : Sound n.unusedPrivate (Cell.layer c.spans) := by
    rw [← sound_renumber (φ := φ), ← h.layer_spans_eq, L.layer_spans]
    exact Cell.sound_hidden (L.sound_dollars h.fresh)
  refine Cell.eq_of_pieces (S := n.unusedPrivate) ?_ ?_
  · rw [Cell.layer_renumber]
    exact h.layer_spans_eq
  · rw [L.pieces_spans, h.layer_spans_eq, ← spell_dress, c.pieces_spans _ (fits_dress.2 hsound),
      pieces_dress]

theorem unspanned_eq (h : L.Follows c φ) : L.unspanned = renumber φ c.unspanned := by
  rw [unspanned, h.spans_eq, Course.unspanned]
  refine Cell.hidden_renumber fun k _ => ?_
  rw [h.math .inlineMath (by decide), h.blocks_eq, length_stored, length_stored,
    Cell.founds_renumber, List.length_map]
  rw [List.length_nil]
  omega

theorem settled_eq (h : L.Follows c φ) : L.settled = renumber φ c.settled := by
  have hS := isPrivateUse_unusedPrivate n
  have hsound : Sound n.unusedPrivate c.unspanned := by
    rw [← sound_renumber (φ := φ), ← h.unspanned_eq]
    exact L.sound_unspanned h.fresh
  refine spell_inj (not_isTokenChar_of_isPrivateUse hS) (L.sound_settled h.fresh) ?_ ?_
  · exact sound_renumber.2 (c.retouched_settled.sound (not_isSign_of_isPrivateUse hS) hsound)
  · have hrun := c.settled_eq (dress n φ) (fits_dress.2 hsound)
    have heq := L.settled_eq
    rw [sentinel_dress, ← Course.unspanned] at hrun
    rw [← unspanned, h.unspanned_eq, ← spell_dress] at heq
    rw [← heq, hrun, spell_dress]

theorem store_eq (h : L.Follows c φ) :
    L.store = (c.store.map fun e => (e.1, renumber φ e.2)) ++ L.verbatim := by
  have hblocks := stored_renumber (φ := φ) .mathBlock c.blocks [] L.verbatim
  rw [List.map_nil, List.nil_append] at hblocks
  rw [store, h.blocks_eq, h.spans_eq, hblocks]
  exact stored_renumber .inlineMath c.spans (stored .mathBlock c.blocks []) L.verbatim

theorem mathBack_eq (h : L.Follows c φ) : L.mathBack = renumber φ c.mathBack := by
  have hkinds : ∀ e ∈ c.store, e.1 ∈ mathKinds := by
    intro e he
    rw [Course.store, mem_stored, mem_stored] at he
    rcases he with ⟨m, -, rfl⟩ | ⟨m, -, rfl⟩ | he
    · exact (by decide : Kind.inlineMath ∈ mathKinds)
    · exact (by decide : Kind.mathBlock ∈ mathKinds)
    · cases he
  rw [mathBack, h.store_eq, h.settled_eq, giveBackIn_renumber _ _ fun e he => h.math e.1 (hkinds e he),
    L.giveBackIn_verbatim_of_math, Course.mathBack]

theorem escapedStore_eq (h : L.Follows c φ) :
    L.escapedStore = c.escapedStore.map fun e => (e.1, renumber φ e.2) := by
  rw [escapedStore, amountStore, h.amounts_eq, stored, Cell.founds_renumber, c.founds_amounts,
    Course.escapedStore]
  simp [Function.comp_def]

/-- **Before verbatim text is given back, the layer is the outcome of the course.** -/
theorem amountsBack_eq (h : L.Follows c φ) : L.amountsBack = renumber φ c.amountsBack := by
  have hkinds : ∀ e ∈ c.escapedStore, e.1 = .currency := by
    intro e he
    rw [Course.escapedStore, List.mem_reverse, List.mem_map] at he
    obtain ⟨t, -, rfl⟩ := he
    rfl
  have hback := giveBackIn_renumber (p := fun _ => true) (φ := φ) c.escapedStore []
    (fun e he i => by rw [hkinds e he, h.amounts, List.length_nil, Nat.zero_add]) c.mathBack
  rw [List.append_nil] at hback
  rw [amountsBack, h.escapedStore_eq, h.mathBack_eq, hback]
  rfl

end Follows

end Layering

end MarkdownPrep
