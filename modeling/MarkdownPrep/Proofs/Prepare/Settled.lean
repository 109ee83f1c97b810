import MarkdownPrep.Proofs.Dollar.Literal
import MarkdownPrep.Proofs.Prepare.Amounts
import MarkdownPrep.Proofs.Prepare.Gains

/-!
# Text that stays as it is when it is prepared again

Preparing a prepared text again may change it: a dollar span that was written as brackets may read
as an amount once the brackets are gone (`prepare_prepare_ne_of_amount`). It does not if and only if
the passes find nothing more to change (`prepare_prepare_eq_iff`): whatever a pass changes gets
heavier, and what was put aside comes back as heavy as it was, so a text that stays the same was not
changed by any pass (`Layering.settled_of_weight_eq`).
-/

namespace MarkdownPrep

open Stash

/-! ## Nothing to change -/

theorem wrapBareMath_eq_self {S : Char} {s : Text} (h : ∀ candidate ∈ Wrap.candidates,
    Piece.founds (Wrap.pieces candidate S s) = []) : wrapBareMath S s = s := by
  have key : ∀ l : List (Text → Option Nat), (∀ candidate ∈ l, candidate ∈ Wrap.candidates) →
      l.foldl (fun s candidate => Wrap.wrapAll candidate S s) s = s := by
    intro l
    induction l with
    | nil => exact fun _ => rfl
    | cons candidate l ih =>
      intro hl
      rw [List.forall_mem_cons] at hl
      rw [List.foldl_cons, Wrap.wrapAll, Piece.mapFound_of_founds_nil (h candidate hl.1),
        Wrap.sources_pieces hl.1, ih hl.2]
  exact key _ fun _ h => h

theorem toDollars_eq_self {s : Text} (hblocks : Piece.founds (Delimiter.blocks s) = [])
    (hinlines : Piece.founds (Delimiter.inlines s) = []) : Delimiter.toDollars s = s := by
  rw [Delimiter.toDollars, Piece.mapFound_of_founds_nil hblocks, Delimiter.sources_blocks,
    Piece.mapFound_of_founds_nil hinlines, Delimiter.sources_inlines]

/-- What is left of a text when code and math that is delimited by dollars are put aside. -/
def bare (s : Text) : Text :=
  let (s, st) := hideVerbatim s
  let (s, st) := hideMathBlocks s st
  (hideInlineMath s st).1

/-- No pass finds anything to change in a text. -/
structure Settled (s : Text) : Prop where
  amounts : Piece.founds (Amount.amounts (hideVerbatim s).1) = []
  blocks : Piece.founds (Delimiter.blocks (hideVerbatim s).1) = []
  inlines : Piece.founds (Delimiter.inlines (hideVerbatim s).1) = []
  wraps : ∀ candidate ∈ Wrap.candidates,
    Piece.founds (Wrap.pieces candidate s.unusedPrivate (bare s)) = []
  literals : ∀ span ∈ Piece.founds (Dollar.openSpans s.unusedPrivate (bare s)),
    Dollar.readsAsMath (Dollar.interior span)

theorem settled_iff (s : Text) : Settled s ↔
    Piece.founds (Amount.amounts (hideVerbatim s).1) = [] ∧
      Piece.founds (Delimiter.blocks (hideVerbatim s).1) = [] ∧
      Piece.founds (Delimiter.inlines (hideVerbatim s).1) = [] ∧
      (∀ candidate ∈ Wrap.candidates,
        Piece.founds (Wrap.pieces candidate s.unusedPrivate (bare s)) = []) ∧
      ∀ span ∈ Piece.founds (Dollar.openSpans s.unusedPrivate (bare s)),
        Dollar.readsAsMath (Dollar.interior span) :=
  ⟨fun h => ⟨h.amounts, h.blocks, h.inlines, h.wraps, h.literals⟩,
    fun ⟨ha, hb, hi, hw, hl⟩ => ⟨ha, hb, hi, hw, hl⟩⟩

instance (s : Text) : Decidable (Settled s) := decidable_of_iff' _ (settled_iff s)

namespace Layering

variable {p : Text} (L : Layering p)

/-! ## What the passes add -/

/-- The amounts of the masked layer with their dollars escaped. -/
def escaped : Layer :=
  Cell.write (fun m => plain (escapeDollars (spell p.unusedPrivate m))) L.amounts

theorem gains_escaped : Gains (Cell.founds L.amounts = []) L.masked L.escaped := by
  rw [← L.layer_amounts, escaped]
  refine gains_write_of_forall fun m hm => ?_
  obtain ⟨t, rfl, hwritten⟩ := L.written m hm
  rw [spell_plain]
  refine .of_lt (retouched_escapeDollars t) fun μ hμ => ?_
  obtain ⟨x, y, rfl, hescaped, -⟩ := hwritten.escaped
  rw [hμ.plain, hμ.plain, hescaped, Text.weight_append, Text.weight_append, Text.weight_cons '\\']
  have hpos : 0 < Text.weight ['\\'] := by decide
  omega

section
variable (hp : p.unusedPrivate ∉ p)
include hp

theorem gains_dollars : Gains
    (Piece.founds (Delimiter.blocks (spell p.unusedPrivate L.unamounted)) = [] ∧
      Piece.founds (Delimiter.inlines (spell p.unusedPrivate L.unamounted)) = [])
    L.unamounted L.dollars := by
  have hS := isPrivateUse_unusedPrivate p
  obtain ⟨bs, hbs, hgain⟩ := exists_toDollars_gains hS L.unamounted
  have hsound := hgain.retouched.sound (not_isSign_of_isPrivateUse hS) (L.sound_unamounted hp)
  have heq : bs = L.dollars := spell_inj (not_isTokenChar_of_isPrivateUse hS) hsound
    (L.sound_dollars hp) (by rw [← hbs, L.toDollars_eq])
  exact heq ▸ hgain

theorem gains_settled : Gains
    ((∀ candidate ∈ Wrap.candidates, Piece.founds
        (Wrap.pieces candidate p.unusedPrivate (spell p.unusedPrivate L.unspanned)) = []) ∧
      ∀ span ∈ Piece.founds
        (Dollar.openSpans p.unusedPrivate (spell p.unusedPrivate L.unspanned)),
        Dollar.readsAsMath (Dollar.interior span))
    L.unspanned L.settled := by
  have hS := isPrivateUse_unusedPrivate p
  obtain ⟨bs, hbs, hwrap⟩ := exists_wrapBareMath_gains hS L.unspanned
  obtain ⟨cs, hcs, hliteral⟩ := exists_escapeLiteral_gains hS bs
  have hgain := hwrap.trans hliteral
  have hsound := hgain.retouched.sound (not_isSign_of_isPrivateUse hS) (L.sound_unspanned hp)
  have heq : cs = L.settled := by
    refine spell_inj (not_isTokenChar_of_isPrivateUse hS) hsound (L.sound_settled hp) ?_
    rw [← hcs, ← hbs]
    exact L.settled_eq
  subst heq
  refine hgain.mono fun ⟨hall, hspans⟩ => ⟨hall, ?_⟩
  rwa [← hbs, wrapBareMath_eq_self hall] at hspans

end

/-- **The amounts come back escaped where they were found.** -/
theorem outcome_unamounted :
    L.outcome L.unamounted = giveBackIn (fun _ => true) L.verbatim L.escaped := by
  have hnot : ∀ i, .token .currency i ∉ Cell.layer (Cell.rewrite
      (fun m => plain (escapeDollars (spell p.unusedPrivate m))) L.amounts) := by
    intro i hi
    rw [Cell.layer_rewrite] at hi
    have hm : .token .currency i ∈ L.masked := L.gains_escaped.retouched.token_mem_iff.1 hi
    exact L.not_mem_masked_of_kind (by decide) i hm
  have hback := giveBackIn_hidden_of_not_mem (p := fun _ => true) rfl hnot []
  rw [Cell.hidden_rewrite, Cell.stored_rewrite, Cell.layer_rewrite] at hback
  exact congrArg _ hback

/-! ## The weight of the outcome -/

/-- The weight of a layer in which code and display math come back. -/
def weightMasked (as : Layer) : Nat :=
  Text.weight (spell p.unusedPrivate (giveBackIn (fun _ => true) L.verbatim as))

/-- The weight of a layer in which the amounts come back as well, escaped. -/
def weightUnamounted (as : Layer) : Nat := Text.weight (spell p.unusedPrivate (L.outcome as))

/-- The weight of a layer in which all comes back. -/
def weightUnspanned (as : Layer) : Nat :=
  L.weightUnamounted (giveBackIn (isOneOf mathKinds) L.store as)

theorem weighs_masked : Weighs L.weightMasked :=
  weighs_spell (giveBackIn_append _) (giveBackIn_plain _)

theorem weighs_unamounted : Weighs L.weightUnamounted :=
  weighs_spell L.outcome_append L.outcome_plain

theorem weighs_unspanned : Weighs L.weightUnspanned :=
  weighs_spell (fun as bs => by rw [giveBackIn_append, outcome_append])
    fun s => by rw [giveBackIn_plain, outcome_plain]

/-- Where the dollars of the outcome are as many as those of the masked text, code and math that
are put aside are the same. -/
theorem bare_eq (h : L.dollars = L.masked) : bare p = spell p.unusedPrivate L.unspanned := by
  have hblocks := hide_pieces .mathBlock L.blocks L.verbatim (S := p.unusedPrivate)
  have hspans := hide_pieces .inlineMath L.spans (stored .mathBlock L.blocks L.verbatim)
    (S := p.unusedPrivate)
  rw [L.pieces_dollars, h] at hblocks
  rw [L.pieces_spans, L.layer_spans] at hspans
  rw [bare, L.hideVerbatim_eq]
  dsimp only
  rw [hideMathBlocks, hblocks]
  dsimp only
  rw [hideInlineMath, hspans]
  rfl

section
variable (hp : p.unusedPrivate ∉ p)
include hp

theorem dollars_eq (h : Delimiter.toDollars (spell p.unusedPrivate L.unamounted) =
    spell p.unusedPrivate L.unamounted) : L.dollars = L.unamounted := by
  have hS := not_isTokenChar_of_isPrivateUse (isPrivateUse_unusedPrivate p)
  refine spell_inj hS (L.sound_dollars hp) (L.sound_unamounted hp) ?_
  rw [← L.toDollars_eq, h]

include L in
/-- **A text that is as heavy after the passes as before** was not changed by any of them. -/
theorem settled_of_weight_eq (hclean : Clean (plain p))
    (h : Text.weight (settleDollars p) = Text.weight p) : Settled p := by
  have hmasked : L.weightMasked L.masked = Text.weight p := by
    rw [weightMasked, L.holds.giveBackIn, spell_plain]
  have hunamounted : L.weightUnamounted L.unamounted = L.weightMasked L.escaped := by
    rw [weightUnamounted, outcome_unamounted, weightMasked]
  have hunspanned : L.weightUnspanned L.unspanned = L.weightUnamounted L.dollars := by
    rw [weightUnspanned, L.giveBackIn_math]
  have hsettled : L.weightUnspanned L.settled = Text.weight (settleDollars p) := by
    rw [L.settleDollars_eq hclean]
    rfl
  have hamounts := L.gains_escaped.le _ L.weighs_masked
  have hbrackets := (L.gains_dollars hp).le _ L.weighs_unamounted
  have hmath := (L.gains_settled hp).le _ L.weighs_unspanned
  -- no step may have made it heavier
  have hnone := L.gains_escaped.of_eq _ L.weighs_masked (by omega)
  obtain ⟨hblocks, hinlines⟩ :=
    (L.gains_dollars hp).of_eq _ L.weighs_unamounted (by omega)
  obtain ⟨hwraps, hliterals⟩ := (L.gains_settled hp).of_eq _ L.weighs_unspanned (by omega)
  have hsame : L.unamounted = L.masked := by
    rw [unamounted, Cell.hidden_eq_layer hnone, L.layer_amounts]
  have hdollars := L.dollars_eq hp (toDollars_eq_self hblocks hinlines)
  rw [hsame] at hblocks hinlines hdollars
  rw [← L.bare_eq hdollars] at hwraps hliterals
  have hhidden : (hideVerbatim p).1 = spell p.unusedPrivate L.masked := by rw [L.hideVerbatim_eq]
  refine ⟨?_, ?_, ?_, hwraps, hliterals⟩
  · rw [hhidden, ← L.pieces_amounts, Cell.founds_pieces, hnone, List.map_nil]
  · rw [hhidden, hblocks]
  · rw [hhidden, hinlines]

include L in
/-- A text in which no pass finds anything to change comes through as it is. -/
theorem settleDollars_eq_self (hclean : Clean (plain p)) (h : Settled p) : settleDollars p = p := by
  have hS := not_isTokenChar_of_isPrivateUse (isPrivateUse_unusedPrivate p)
  have hhidden : (hideVerbatim p).1 = spell p.unusedPrivate L.masked := by rw [L.hideVerbatim_eq]
  have hnone : Cell.founds L.amounts = [] := by
    have hamounts := h.amounts
    rw [hhidden, ← L.pieces_amounts, Cell.founds_pieces] at hamounts
    exact List.map_eq_nil_iff.1 hamounts
  have hsame : L.unamounted = L.masked := by
    rw [unamounted, Cell.hidden_eq_layer hnone, L.layer_amounts]
  have hdollars : L.dollars = L.masked := by
    rw [L.dollars_eq hp, hsame]
    rw [hsame, ← hhidden]
    exact toDollars_eq_self h.blocks h.inlines
  have hsettled : L.settled = L.unspanned := by
    refine spell_inj hS (L.sound_settled hp) (L.sound_unspanned hp) ?_
    have hwraps := h.wraps
    have hliterals := h.literals
    rw [L.bare_eq hdollars] at hwraps hliterals
    rw [← L.settled_eq]
    show Dollar.escapeLiteral p.unusedPrivate (wrapBareMath p.unusedPrivate
      (spell p.unusedPrivate L.unspanned)) = _
    rw [wrapBareMath_eq_self hwraps, Dollar.escapeLiteral_eq_self hliterals]
  have hback : L.mathBack = L.masked := by
    rw [mathBack, hsettled, L.giveBackIn_math, hdollars]
  have hescaped : L.escaped = L.masked := by
    rw [escaped, Cell.write_eq_layer hnone, L.layer_amounts]
  calc settleDollars p = spell p.unusedPrivate (L.outcome L.mathBack) := L.settleDollars_eq hclean
    _ = spell p.unusedPrivate (giveBackIn (fun _ => true) L.verbatim L.masked) := by
      rw [hback, ← hsame, L.outcome_unamounted, hescaped, hsame]
    _ = p := by rw [L.holds.giveBackIn, spell_plain]

end

end Layering

/-- **A text that ends in its last newline stays as it is** if and only if no pass finds anything to
change in it. -/
theorem prepare_eq_self_iff {q : Text} (hq : Text.trimEnd q = q) (hline : '\r' ∉ q)
    (hp : Text.unusedPrivate (q ++ ['\n']) ∉ q ++ ['\n']) (hclean : Clean (plain (q ++ ['\n']))) :
    prepare (q ++ ['\n']) = q ++ ['\n'] ↔ Settled (q ++ ['\n']) := by
  obtain ⟨L⟩ := exists_layering (q ++ ['\n'])
  have hunify : Text.unifyLineEnds (q ++ ['\n']) = q ++ ['\n'] :=
    Text.unifyLineEnds_eq_self (by simpa using hline)
  have hprepare : prepare (q ++ ['\n']) = Text.trimEnd (settleDollars (q ++ ['\n'])) ++ ['\n'] := by
    rw [prepare, if_neg (by simp), hunify]
  rw [hprepare]
  constructor
  · intro h
    refine L.settled_of_weight_eq hp hclean ?_
    have hweight := congrArg Text.weight h
    rw [Text.weight_append, Text.weight_trimEnd] at hweight
    simpa [Text.weight] using hweight
  · intro h
    have hblank : ∀ c ∈ ['\n'], isBlank c := List.forall_mem_singleton.2 (by decide)
    rw [L.settleDollars_eq_self hp hclean h, Text.trimEnd_append_of_blank q hblank, hq]

/-- **A prepared text stays as it is when it is prepared again** if and only if no pass finds
anything to change in it. -/
theorem prepare_prepare_eq_iff {c : Text} (hfresh : ∃ p, isPrivateUse p ∧ p ∉ Text.unifyLineEnds c)
    (hbody : ∀ kind i, ¬ tokenBody kind i <:+: Text.unifyLineEnds c) :
    prepare (prepare c) = prepare c ↔ Settled (prepare c) := by
  by_cases hc : c = []
  · subst hc
    exact ⟨fun _ => ⟨rfl, rfl, rfl, by decide, by decide⟩, fun _ => rfl⟩
  obtain ⟨L⟩ := exists_layering (Text.unifyLineEnds c)
  have hS := isPrivateUse_unusedPrivate (Text.unifyLineEnds c)
  obtain ⟨s, hfinal⟩ := L.exists_final_eq_plain
  have hsettled : settleDollars (Text.unifyLineEnds c) = s := by
    rw [L.settleDollars_eq (clean_plain hbody), hfinal, spell_plain]
  have hprepare : prepare c = Text.trimEnd s ++ ['\n'] := by
    rw [prepare, if_neg (by simpa using hc), hsettled]
  have hretouched : Retouched (plain (Text.unifyLineEnds c)) (plain s) :=
    hfinal ▸ L.retouched_final
  -- what is no sign and does not stand in the text does not stand in the prepared text
  have hnot : ∀ d, ¬ isSign d → d ∉ Text.unifyLineEnds c → d ∉ Text.trimEnd s := by
    intro d hd hm hmem
    exact sound_plain.1 (hretouched.sound hd (sound_plain.2 hm)) ((Text.trimEnd_prefix s).subset hmem)
  have hunused := unusedPrivate_not_mem hfresh
  have hnewline : Retouched (plain (Text.trimEnd s)) (plain (Text.trimEnd s ++ ['\n'])) := by
    rw [plain_append]
    have hend : Retouched (plain []) (plain ['\n']) :=
      retouched_plain (by decide) (by decide) (.inl rfl) (by decide)
    simpa using (Retouched.refl (plain (Text.trimEnd s))).append hend
  rw [hprepare]
  refine prepare_eq_self_iff (Text.trimEnd_trimEnd s) ?_ ?_ ?_
  · exact hnot '\r' (by decide) (Text.not_mem_unifyLineEnds c)
  · refine unusedPrivate_not_mem ⟨_, hS, fun hm => ?_⟩
    rcases List.mem_append.1 hm with hm | hm
    · exact hnot _ (not_isSign_of_isPrivateUse hS) hunused hm
    · rw [List.mem_singleton.1 hm] at hS
      exact absurd hS (by decide)
  · have hclean := hretouched.clean (clean_plain hbody)
    obtain ⟨t, ht, -⟩ := Text.exists_trimEnd_append s
    refine hnewline.clean (hclean.of_infix ?_)
    rw [congrArg plain ht, plain_append]
    exact (List.prefix_append _ _).isInfix

theorem prepare_prepare_eq_iff_of_math :
    ((∃ p, isPrivateUse p ∧ p ∉ Text.unifyLineEnds "x = 1 costs $5 of \\(a\\)".toList) ∧
      ∀ kind i, ¬ tokenBody kind i <:+:
        Text.unifyLineEnds "x = 1 costs $5 of \\(a\\)".toList) ∧
    (prepare (prepare "x = 1 costs $5 of \\(a\\)".toList) =
        prepare "x = 1 costs $5 of \\(a\\)".toList ↔
      Settled (prepare "x = 1 costs $5 of \\(a\\)".toList)) :=
  ⟨⟨⟨'\uE000', by decide, by decide⟩, not_tokenBody_infix_of_not_mem (by decide)⟩,
    prepare_prepare_eq_iff ⟨'\uE000', by decide, by decide⟩
      (not_tokenBody_infix_of_not_mem (by decide))⟩

example : Settled "$x$ costs \\$5\n".toList := by decide +kernel

/-- Inline math in brackets that is an amount is a dollar span at first and an escaped amount when it
is prepared again. -/
theorem prepare_prepare_ne_of_amount :
    prepare "\\(10\\)".toList = "$10$\n".toList ∧
      prepare "$10$\n".toList = "\\$10$\n".toList ∧
      prepare (prepare "\\(10\\)".toList) ≠ prepare "\\(10\\)".toList := by
  decide +kernel

end MarkdownPrep
