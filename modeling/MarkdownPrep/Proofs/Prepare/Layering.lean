import MarkdownPrep.Prepare
import MarkdownPrep.Proofs.Prepare.Passes
import MarkdownPrep.Proofs.Verbatim.RoundTrip

/-!
# The layers of a text in preparation

`Layering n` follows the text `n` through all passes as layers: what each pass cuts and puts aside,
and what it rewrites. Every text has one (`exists_layering`). Where no body of a token occurs in
`n`, the outcome `settleDollars n` is the text of the layer `Layering.final`, in which everything is
given back (`Layering.settleDollars_eq`), and that layer is `n` retouched
(`Layering.retouched_final`).
-/

namespace MarkdownPrep

open Stash

/-- True for the kinds in a list. -/
def Stash.isOneOf (kinds : List Kind) (kind : Kind) : Bool := kinds.contains kind

/-- Math that was put aside in two passes comes back. -/
theorem giveBackIn_spans_blocks {blocks spans : List Cell} {old : Store}
    (hspans : Cell.layer spans = Cell.hidden .mathBlock old.length blocks)
    (h : ∀ kind ∈ mathKinds, ∀ i, .token kind i ∉ Cell.layer blocks) :
    giveBackIn (isOneOf mathKinds) (stored .inlineMath spans (stored .mathBlock blocks old))
      (Cell.hidden .inlineMath (stored .mathBlock blocks old).length spans) =
      giveBackIn (isOneOf mathKinds) old (Cell.layer blocks) := by
  have hnot : ∀ i, .token .inlineMath i ∉ Cell.layer spans := by
    intro i hi
    rw [hspans] at hi
    rcases Cell.token_mem_hidden hi with hk | hi
    · cases hk
    · exact h .inlineMath (by decide) i hi
  rw [giveBackIn_hidden_of_not_mem (by decide) hnot, hspans,
    giveBackIn_hidden_of_not_mem (by decide) (h .mathBlock (by decide))]

/-- A text on its way through the passes. -/
structure Layering (n : Text) where
  /-- What is put aside at the start. -/
  verbatim : Store
  /-- The text with the tokens of that. -/
  masked : Layer
  /-- The same layer with its amounts found. -/
  amounts : List Cell
  /-- The layer without amounts with its bracketed blocks found. -/
  brackets : List Cell
  /-- The layer with these made dollar blocks and its bracketed inline math found. -/
  parens : List Cell
  /-- The layer with that made dollar spans and its dollar blocks found. -/
  blocks : List Cell
  /-- The layer without dollar blocks with its dollar spans found. -/
  spans : List Cell
  /-- The layer without dollar spans, bare math wrapped and literal dollars escaped. -/
  settled : Layer
  hideVerbatim_eq : hideVerbatim n =
    (spell n.unusedPrivate masked, ⟨n.unusedPrivate, spellAll n.unusedPrivate verbatim⟩)
  holds : Holds n verbatim masked
  kinds : ∀ e ∈ verbatim, e.1 = .displayMath ∨ e.1 = .fencedCode ∨ e.1 = .inlineCode
  layer_amounts : Cell.layer amounts = masked
  pieces_amounts :
    Cell.pieces n.unusedPrivate amounts = Amount.amounts (spell n.unusedPrivate masked)
  written : ∀ as ∈ Cell.founds amounts, ∃ t, as = plain t ∧ Amount.IsWritten t
  bracketed : Brackets n.unusedPrivate (Cell.hidden .currency 0 amounts) brackets parens
  layer_blocks : Cell.layer blocks = Cell.write toSpan parens
  pieces_blocks : Cell.pieces n.unusedPrivate blocks =
    Verbatim.displayMath (spell n.unusedPrivate (Cell.layer blocks))
  layer_spans : Cell.layer spans = Cell.hidden .mathBlock verbatim.length blocks
  pieces_spans : Cell.pieces n.unusedPrivate spans =
    Verbatim.inlineMath (spell n.unusedPrivate (Cell.layer spans))
  settled_eq :
    Dollar.escapeLiteral n.unusedPrivate (wrapBareMath n.unusedPrivate (spell n.unusedPrivate
      (Cell.hidden .inlineMath (stored .mathBlock blocks verbatim).length spans))) =
      spell n.unusedPrivate settled
  retouched_settled : Retouched
    (Cell.hidden .inlineMath (stored .mathBlock blocks verbatim).length spans) settled

/-- **Every text passes through layers.** -/
theorem exists_layering (n : Text) : Nonempty (Layering n) := by
  have hS := isPrivateUse_unusedPrivate n
  obtain ⟨es, as, hhide, hholds, hkinds⟩ := exists_holds_hideVerbatim n
  obtain ⟨amounts, hal, hap, hwritten⟩ := exists_amounts hS as
  obtain ⟨brackets, parens, hbrackets⟩ := exists_brackets hS (Cell.hidden .currency 0 amounts)
  obtain ⟨blocks, hbl, hbp, -⟩ := exists_framed_cells hS (Verbatim.sources_displayMath _)
    (Verbatim.framed_displayMath (spell n.unusedPrivate (Cell.write toSpan parens)))
  obtain ⟨spans, hsl, hsp, -⟩ := exists_framed_cells hS (Verbatim.sources_inlineMath _)
    (Verbatim.framed_inlineMath (spell n.unusedPrivate (Cell.hidden .mathBlock es.length blocks)))
  obtain ⟨wrapped, hwrap, hrw⟩ := exists_wrapBareMath hS
    (Cell.hidden .inlineMath (stored .mathBlock blocks es).length spans)
  obtain ⟨settled, hset, hrs⟩ := exists_escapeLiteral hS wrapped
  exact ⟨{
    verbatim := es
    masked := as
    amounts := amounts
    brackets := brackets
    parens := parens
    blocks := blocks
    spans := spans
    settled := settled
    hideVerbatim_eq := hhide
    holds := hholds
    kinds := hkinds
    layer_amounts := hal
    pieces_amounts := hap
    written := hwritten
    bracketed := hbrackets
    layer_blocks := hbl
    pieces_blocks := by rw [hbp, hbl]
    layer_spans := hsl
    pieces_spans := by rw [hsp, hsl]
    settled_eq := by rw [hwrap, hset]
    retouched_settled := hrw.trans hrs }⟩

theorem retouched_escapeDollars (s : Text) :
    Retouched (plain s) (plain (escapeDollars s)) := by
  induction s with
  | nil => exact .refl []
  | cons c s ih =>
    have hcons : escapeDollars (c :: s) =
        (if c = '$' then ['\\', '$'] else [c]) ++ escapeDollars s := by simp [escapeDollars]
    rw [hcons, plain_append, plain_cons, ← List.singleton_append]
    refine Retouched.append ?_ ih
    split
    · next hc =>
      subst hc
      exact retouched_plain (by decide : AllSigns ['$']) (by decide) (by decide) (by decide)
    · exact .refl _

namespace Layering

variable {n : Text} (L : Layering n)

/-- The layer without amounts. -/
def unamounted : Layer := Cell.hidden .currency 0 L.amounts

/-- That layer with its brackets made dollars. -/
def dollars : Layer := Cell.layer L.blocks

theorem toDollars_eq :
    Delimiter.toDollars (spell n.unusedPrivate L.unamounted) = spell n.unusedPrivate L.dollars := by
  rw [dollars, L.layer_blocks]
  exact L.bracketed.toDollars_eq

theorem pieces_dollars : Cell.pieces n.unusedPrivate L.blocks =
    Verbatim.displayMath (spell n.unusedPrivate L.dollars) := L.pieces_blocks

theorem retouched_dollars : Retouched L.unamounted L.dollars := by
  rw [dollars, L.layer_blocks]
  exact L.bracketed.retouched

/-- The layer without dollar spans. -/
def unspanned : Layer :=
  Cell.hidden .inlineMath (stored .mathBlock L.blocks L.verbatim).length L.spans

/-- What was put aside at the start, with the math that was later. -/
def store : Store := stored .inlineMath L.spans (stored .mathBlock L.blocks L.verbatim)

/-- The amounts, as they were found. -/
def amountStore : Store := stored .currency L.amounts []

/-- The amounts with their dollars escaped. -/
def escapedStore : Store :=
  L.amountStore.map fun e => (e.1, plain (escapeDollars (spell n.unusedPrivate e.2)))

/-- Math given back in the settled layer. -/
def mathBack : Layer := giveBackIn (isOneOf mathKinds) L.store L.settled

/-- Amounts given back after that. -/
def amountsBack : Layer := giveBackIn (fun _ => true) L.escapedStore L.mathBack

/-- All given back. -/
def final : Layer := giveBackIn (fun _ => true) L.verbatim L.amountsBack

/-! ## What is put aside comes back -/

theorem not_mem_masked_of_kind {kind : Kind} (h : kind ≠ .displayMath ∧ kind ≠ .fencedCode ∧
    kind ≠ .inlineCode) (i : Nat) : .token kind i ∉ L.masked := by
  intro hm
  obtain ⟨newer, new, older, he, -⟩ := L.holds.hasEntry hm
  have hk := L.kinds (kind, new) (by simp [he])
  tauto

theorem not_mem_dollars_of_kind {kind : Kind} (h : kind ≠ .displayMath ∧ kind ≠ .fencedCode ∧
    kind ≠ .inlineCode) (hc : kind ≠ .currency) (i : Nat) : .token kind i ∉ L.dollars := by
  intro hm
  rw [L.retouched_dollars.token_mem_iff] at hm
  rcases Cell.token_mem_hidden hm with hk | hm
  · exact hc hk
  · exact L.not_mem_masked_of_kind h i (L.layer_amounts ▸ hm)

theorem giveBackIn_amounts :
    giveBackIn (fun _ => true) L.amountStore L.unamounted = L.masked := by
  have hnot : ∀ i, .token .currency i ∉ Cell.layer L.amounts :=
    fun i hi => L.not_mem_masked_of_kind (by decide) i (L.layer_amounts ▸ hi)
  exact (giveBackIn_hidden_of_not_mem rfl hnot []).trans L.layer_amounts

/-- Nothing that was put aside at the start is math that was put aside later. -/
theorem giveBackIn_verbatim_of_math (as : Layer) :
    giveBackIn (isOneOf mathKinds) L.verbatim as = as := by
  have hverbatim : ∀ e ∈ L.verbatim, isOneOf mathKinds e.1 = false := by
    intro e he
    rcases L.kinds e he with hk | hk | hk <;> rw [hk] <;> rfl
  simpa using giveBackIn_of_forall_not hverbatim [] as

theorem giveBackIn_math :
    giveBackIn (isOneOf mathKinds) L.store L.unspanned = L.dollars := by
  have hkinds : ∀ kind ∈ mathKinds, (kind ≠ .displayMath ∧ kind ≠ .fencedCode ∧
      kind ≠ .inlineCode) ∧ kind ≠ .currency := by decide
  have hnot : ∀ kind ∈ mathKinds, ∀ i, .token kind i ∉ Cell.layer L.blocks := fun kind hk =>
    L.not_mem_dollars_of_kind (hkinds kind hk).1 (hkinds kind hk).2
  exact (giveBackIn_spans_blocks L.layer_spans hnot).trans (L.giveBackIn_verbatim_of_math L.dollars)

/-! ## The outcome is the text retouched -/

theorem retouched_mathBack : Retouched L.dollars L.mathBack := by
  rw [← L.giveBackIn_math]
  exact L.retouched_settled.giveBackIn (.refl _)

theorem forall_amountStore : ∀ e ∈ L.amountStore, ∃ t, e.2 = plain t ∧ Amount.IsWritten t := by
  intro e he
  simp only [amountStore, stored, List.append_nil, List.mem_reverse, List.mem_map] at he
  obtain ⟨as, has, rfl⟩ := he
  exact L.written as has

theorem retouched_escapedStore : RetouchedStore L.amountStore L.escapedStore := by
  rw [escapedStore, RetouchedStore, List.forall₂_map_right_iff]
  refine List.forall₂_same.2 fun e he => ⟨rfl, ?_⟩
  obtain ⟨t, ht, -⟩ := L.forall_amountStore e he
  rw [ht, spell_plain]
  exact retouched_escapeDollars t

/-- **Before verbatim text is given back, the layer is the masked one retouched.** -/
theorem retouched_amountsBack : Retouched L.masked L.amountsBack := by
  rw [← L.giveBackIn_amounts]
  exact (L.retouched_dollars.trans L.retouched_mathBack).giveBackIn L.retouched_escapedStore

/-- **The outcome is the text retouched.** -/
theorem retouched_final : Retouched (plain n) L.final := by
  rw [← L.holds.giveBackIn]
  exact L.retouched_amountsBack.giveBackIn (.refl _)

/-! ## Layers in which the sentinel does not stand -/

section
variable (hn : n.unusedPrivate ∉ n)
include hn

theorem sound_unamounted : Sound n.unusedPrivate L.unamounted :=
  fun hm => L.holds.sound hn (L.giveBackIn_amounts ▸ char_mem_giveBackIn hm)

theorem sound_dollars : Sound n.unusedPrivate L.dollars :=
  L.retouched_dollars.sound (not_isSign_of_isPrivateUse (isPrivateUse_unusedPrivate n))
    (L.sound_unamounted hn)

theorem sound_unspanned : Sound n.unusedPrivate L.unspanned :=
  fun hm => L.sound_dollars hn (L.giveBackIn_math ▸ char_mem_giveBackIn hm)

theorem sound_settled : Sound n.unusedPrivate L.settled :=
  L.retouched_settled.sound (not_isSign_of_isPrivateUse (isPrivateUse_unusedPrivate n))
    (L.sound_unspanned hn)

end

/-! ## The outcome is the text of a layer -/

/-- Putting the amounts aside, in layers. -/
theorem hide_amounts : Amount.hide (spell n.unusedPrivate L.masked) ⟨n.unusedPrivate, []⟩ =
    (spell n.unusedPrivate L.unamounted,
      ⟨n.unusedPrivate, spellAll n.unusedPrivate L.amountStore⟩) := by
  rw [Amount.hide, ← L.pieces_amounts]
  exact hide_pieces .currency L.amounts []

/-- The passes up to the last one, in layers. -/
theorem settleDollars_eq_giveAllBack :
    settleDollars n = giveAllBack ⟨n.unusedPrivate, spellAll n.unusedPrivate L.amountStore⟩
      ⟨n.unusedPrivate, spellAll n.unusedPrivate L.store⟩ (spell n.unusedPrivate L.settled) := by
  have hblocks := hide_pieces .mathBlock L.blocks L.verbatim (S := n.unusedPrivate)
  have hspans := hide_pieces .inlineMath L.spans (stored .mathBlock L.blocks L.verbatim)
    (S := n.unusedPrivate)
  rw [L.pieces_blocks] at hblocks
  rw [L.pieces_spans, L.layer_spans] at hspans
  rw [settleDollars, L.hideVerbatim_eq]
  dsimp only [Stash.emptied]
  rw [L.hide_amounts]
  dsimp only
  rw [L.toDollars_eq, hideMathBlocks, dollars, hblocks]
  dsimp only
  rw [hideInlineMath, hspans]
  dsimp only
  rw [L.settled_eq]
  rfl

/-- **The outcome is the text of the last layer**, if no body of a token occurs in the text. -/
theorem settleDollars_eq (hclean : Clean (plain n)) :
    settleDollars n = spell n.unusedPrivate L.final := by
  have hS := not_isTokenChar_of_isPrivateUse (isPrivateUse_unusedPrivate n)
  have hfinal : giveBackIn (isOneOf verbatimKinds) L.store L.amountsBack = L.final := by
    rw [store, giveBackIn_stored_of_not (by decide), giveBackIn_stored_of_not (by decide), final]
    refine giveBackIn_congr (fun e he => ?_) _
    rcases L.kinds e he with hk | hk | hk <;> rw [hk] <;> rfl
  -- the outcome is clean, and so is every layer on the way to it
  have hclean₁ : Clean (giveBackIn (isOneOf verbatimKinds) L.store L.amountsBack) :=
    hfinal ▸ L.retouched_final.clean hclean
  have hclean₂ : Clean L.amountsBack := clean_of_giveBackIn hclean₁
  have hclean₃ : Clean L.mathBack := clean_of_giveBackIn hclean₂
  have hstep₁ : restoreOnly mathKinds ⟨n.unusedPrivate, spellAll n.unusedPrivate L.store⟩
      (spell n.unusedPrivate L.settled) = spell n.unusedPrivate L.mathBack :=
    giveBack_spell_of_clean hS hclean₃
  have hstep₂ : restoreEscaped ⟨n.unusedPrivate, spellAll n.unusedPrivate L.amountStore⟩
      (spell n.unusedPrivate L.mathBack) = spell n.unusedPrivate L.amountsBack := by
    have hescape :
        (spellAll n.unusedPrivate L.amountStore).map (fun e => (e.1, escapeDollars e.2)) =
        spellAll n.unusedPrivate L.escapedStore := by simp [spellAll, escapedStore]
    rw [restoreEscaped, giveBack_map, hescape]
    exact giveBack_spell_of_clean hS hclean₂
  have hstep₃ : restoreOnly verbatimKinds ⟨n.unusedPrivate, spellAll n.unusedPrivate L.store⟩
      (spell n.unusedPrivate L.amountsBack) = spell n.unusedPrivate L.final :=
    (giveBack_spell_of_clean hS hclean₁).trans (by rw [hfinal])
  rw [L.settleDollars_eq_giveAllBack, giveAllBack, hstep₁, hstep₂, hstep₃]

end Layering

end MarkdownPrep
