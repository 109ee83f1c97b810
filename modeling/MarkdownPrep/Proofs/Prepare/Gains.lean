import MarkdownPrep.Proofs.Prepare.Passes
import MarkdownPrep.Proofs.Text.Ends

/-!
# What passes add

A text is weighed by its dollars and backslashes (`Text.weight`). Whatever a pass changes gets
heavier (`Gains`): brackets become more dollars than they have backslashes
(`exists_toDollars_gains`), bare math gets dollars (`exists_wrapBareMath_gains`), literal dollars get
backslashes (`exists_escapeLiteral_gains`). So a text that weighs as much as before was not changed.
-/

namespace MarkdownPrep

/-! ## Weights -/

namespace Text

/-- The weight of a text: two for each dollar and one for each backslash. -/
def weight (s : Text) : Nat := 2 * s.count '$' + s.count '\\'

@[simp] theorem weight_append (s t : Text) : weight (s ++ t) = weight s + weight t := by
  simp only [weight, List.count_append]
  omega

theorem weight_cons (c : Char) (s : Text) : weight (c :: s) = weight [c] + weight s :=
  weight_append [c] s

theorem weight_eq_zero {s : Text} (hdollar : '$' ∉ s) (hbackslash : '\\' ∉ s) : weight s = 0 := by
  rw [weight, List.count_eq_zero.2 hdollar, List.count_eq_zero.2 hbackslash]

theorem weight_trimEnd (s : Text) : weight (trimEnd s) = weight s := by
  obtain ⟨t, hs, ht⟩ := exists_trimEnd_append s
  have hzero : weight t = 0 :=
    weight_eq_zero (fun hm => absurd (ht _ hm) (by decide)) fun hm => absurd (ht _ hm) (by decide)
  rw [congrArg weight hs, weight_append, hzero, Nat.add_zero]

end Text

namespace Stash

/-- A weight of layers that is that of the text where there are no tokens. -/
structure Weighs (μ : Layer → Nat) : Prop where
  append : ∀ as bs, μ (as ++ bs) = μ as + μ bs
  plain : ∀ s, μ (plain s) = Text.weight s

/-- A layer comes from another by changes in its signs. Whatever its tokens weigh it does not get
lighter, and it gets heavier unless `P`. -/
structure Gains (P : Prop) (as bs : Layer) : Prop where
  retouched : Retouched as bs
  le : ∀ μ, Weighs μ → μ as ≤ μ bs
  of_eq : ∀ μ, Weighs μ → μ bs = μ as → P

section
variable {P Q : Prop} {as bs cs ds : Layer}

theorem Gains.refl (h : P) (as : Layer) : Gains P as as :=
  ⟨.refl as, fun _ _ => Nat.le_refl _, fun _ _ _ => h⟩

theorem Gains.mono (h : Gains P as bs) (hPQ : P → Q) : Gains Q as bs :=
  ⟨h.retouched, h.le, fun μ hμ heq => hPQ (h.of_eq μ hμ heq)⟩

theorem Gains.trans (h : Gains P as bs) (h' : Gains Q bs cs) : Gains (P ∧ Q) as cs := by
  refine ⟨h.retouched.trans h'.retouched, fun μ hμ => (h.le μ hμ).trans (h'.le μ hμ), ?_⟩
  intro μ hμ heq
  have hl := h.le μ hμ
  have hr := h'.le μ hμ
  exact ⟨h.of_eq μ hμ (by omega), h'.of_eq μ hμ (by omega)⟩

theorem Gains.append (h : Gains P as bs) (h' : Gains Q cs ds) :
    Gains (P ∧ Q) (as ++ cs) (bs ++ ds) := by
  refine ⟨h.retouched.append h'.retouched, fun μ hμ => ?_, fun μ hμ heq => ?_⟩
  · rw [hμ.append, hμ.append]
    exact Nat.add_le_add (h.le μ hμ) (h'.le μ hμ)
  · have hl := h.le μ hμ
    have hr := h'.le μ hμ
    rw [hμ.append, hμ.append] at heq
    exact ⟨h.of_eq μ hμ (by omega), h'.of_eq μ hμ (by omega)⟩

/-- A layer that gets heavier by every weight gains with nothing left to show. -/
theorem Gains.of_lt (h : Retouched as bs) (hlt : ∀ μ, Weighs μ → μ as < μ bs) : Gains P as bs :=
  ⟨h, fun μ hμ => (hlt μ hμ).le, fun μ hμ heq => absurd heq (hlt μ hμ).ne'⟩

/-- **A layer gains by what is found in it.** -/
theorem gains_write {P : Layer → Prop} {g : Layer → Layer} {cs : List Cell}
    (h : ∀ m ∈ Cell.founds cs, Gains (P m) m (g m)) :
    Gains (∀ m ∈ Cell.founds cs, P m) (Cell.layer cs) (Cell.write g cs) := by
  induction cs with
  | nil => exact .refl (by simp) []
  | cons c cs ih =>
    cases c with
    | kept a => exact ((Gains.refl trivial [a]).append (ih h)).mono And.right
    | found m =>
      rw [Cell.founds_found, List.forall_mem_cons] at h ⊢
      exact h.1.append (ih h.2)

theorem gains_write_of_forall {g : Layer → Layer} {cs : List Cell}
    (h : ∀ m ∈ Cell.founds cs, Gains False m (g m)) :
    Gains (Cell.founds cs = []) (Cell.layer cs) (Cell.write g cs) :=
  (gains_write h).mono List.eq_nil_iff_forall_not_mem.2

/-- Where nothing is found, nothing is written. -/
theorem Cell.write_eq_layer {g : Layer → Layer} {cs : List Cell} (h : Cell.founds cs = []) :
    Cell.write g cs = Cell.layer cs := by
  induction cs with
  | nil => rfl
  | cons c cs ih =>
    cases c with
    | kept a => rw [Cell.write_kept, Cell.layer_kept, ih h]
    | found m => cases h

namespace Cell

/-- Cells with each found stretch `as` changed to `g as`. -/
def rewrite (g : Layer → Layer) (cs : List Cell) : List Cell :=
  cs.map fun
    | kept a => kept a
    | found as => found (g as)

section
variable (g : Layer → Layer) (cs : List Cell)

theorem layer_rewrite : layer (rewrite g cs) = write g cs := by
  induction cs with
  | nil => rfl
  | cons c cs ih => cases c <;> simpa [rewrite] using ih

theorem hidden_rewrite (kind : Kind) (n : Nat) : hidden kind n (rewrite g cs) = hidden kind n cs := by
  induction cs generalizing n with
  | nil => rfl
  | cons c cs ih =>
    cases c with
    | kept a => exact congrArg (a :: ·) (ih n)
    | found m => exact congrArg (.token kind n :: ·) (ih (n + 1))

theorem founds_rewrite : founds (rewrite g cs) = (founds cs).map g := by
  induction cs with
  | nil => rfl
  | cons c cs ih =>
    cases c with
    | kept a => exact ih
    | found m => exact congrArg (g m :: ·) ih

theorem stored_rewrite (kind : Kind) :
    stored kind (rewrite g cs) [] = (stored kind cs []).map fun e => (e.1, g e.2) := by
  simp [stored, founds_rewrite, Function.comp_def]

end

end Cell

/-- What stands between delimiters gains if the delimiters do. -/
theorem gains_delimited {a a' b b' : Text} (ha : AllSigns a) (ha' : AllSigns a')
    (hb : AllSigns b ∧ Text.Visible b) (hb' : AllSigns b' ∧ Text.Visible b') (hlast : b.getLast? ≠ some '\\')
    (hlast' : b'.getLast? ≠ some '\\')
    (hlt : Text.weight a + Text.weight a' < Text.weight b + Text.weight b') (as : Layer) :
    Gains P (plain a ++ (as ++ plain a')) (plain b ++ (as ++ plain b')) := by
  refine .of_lt (retouched_delimited ha ha' hb hb' hlast hlast' as) fun μ hμ => ?_
  simp only [hμ.append, hμ.plain]
  omega

end

/-- Layers that are given back weigh as their texts do. -/
theorem weighs_spell {S : Char} {f : Layer → Layer} (happend : ∀ as bs, f (as ++ bs) = f as ++ f bs)
    (hplain : ∀ s, f (plain s) = plain s) : Weighs fun as => Text.weight (spell S (f as)) := by
  constructor
  · intro as bs
    rw [happend, spell_append, Text.weight_append]
  · intro s
    rw [hplain, spell_plain]

end Stash

open Stash

/-! ## The passes -/

section
variable {S : Char} (hS : isPrivateUse S)
include hS

/-- **Brackets that become dollars gain.** -/
theorem exists_toDollars_gains (as : Layer) : ∃ bs,
    Delimiter.toDollars (spell S as) = spell S bs ∧
      Gains (Piece.founds (Delimiter.blocks (spell S as)) = [] ∧
        Piece.founds (Delimiter.inlines (spell S as)) = []) as bs := by
  obtain ⟨brackets, parens, h⟩ := exists_brackets hS as
  have hblocks : Gains (Cell.founds brackets = []) as (Cell.layer parens) := by
    rw [← h.layer_brackets, h.layer_parens]
    refine gains_write_of_forall fun m hm => ?_
    obtain ⟨bs, rfl⟩ := h.founds_brackets m hm
    rw [toBlock_append]
    exact gains_delimited (by decide) (by decide) (by decide) (by decide) (by decide) (by decide)
      (by decide) bs
  have hspans : Gains (Cell.founds parens = []) (Cell.layer parens) (Cell.write toSpan parens) := by
    refine gains_write_of_forall fun m hm => ?_
    obtain ⟨bs, rfl⟩ := h.founds_parens m hm
    rw [toSpan_append]
    exact gains_delimited (by decide) (by decide) (by decide) (by decide) (by decide) (by decide)
      (by decide) bs
  refine ⟨_, h.toDollars_eq, (hblocks.trans hspans).mono fun ⟨hb, hp⟩ => ⟨?_, ?_⟩⟩
  · rw [← h.pieces_brackets, Cell.founds_pieces, hb, List.map_nil]
  · have hlayer : Cell.layer parens = as := by
      rw [h.layer_parens, Cell.write_eq_layer hb, h.layer_brackets]
    rw [← hlayer, ← h.pieces_parens, Cell.founds_pieces, hp, List.map_nil]

theorem exists_wrapAll_gains {candidate : Text → Option Nat} (h : candidate ∈ Wrap.candidates)
    (as : Layer) : ∃ bs, Wrap.wrapAll candidate S (spell S as) = spell S bs ∧
      Gains (Piece.founds (Wrap.pieces candidate S (spell S as)) = []) as bs := by
  obtain ⟨cs, rfl, hcs⟩ := exists_wrap_cells hS h as
  refine ⟨Cell.write (fun m => plain "$".toList ++ (m ++ plain "$".toList)) cs, ?_, ?_⟩
  · rw [Wrap.wrapAll, ← hcs]
    exact Cell.mapFound_pieces fun m _ => by simp
  · refine (gains_write_of_forall fun m _ => ?_).mono fun hnil => ?_
    · have hgain : Gains False (plain [] ++ (m ++ plain []))
          (plain "$".toList ++ (m ++ plain "$".toList)) :=
        gains_delimited (by decide) (by decide) (by decide) (by decide) (by decide) (by decide)
          (by decide) m
      rwa [plain_nil, List.nil_append, List.append_nil] at hgain
    · rw [← hcs, Cell.founds_pieces, hnil, List.map_nil]

/-- **Bare math that is wrapped gains.** -/
theorem exists_wrapBareMath_gains (as : Layer) : ∃ bs, wrapBareMath S (spell S as) = spell S bs ∧
    Gains (∀ candidate ∈ Wrap.candidates,
      Piece.founds (Wrap.pieces candidate S (spell S as)) = []) as bs := by
  have key : ∀ l : List (Text → Option Nat), (∀ candidate ∈ l, candidate ∈ Wrap.candidates) →
      ∀ as, ∃ bs, l.foldl (fun s candidate => Wrap.wrapAll candidate S s) (spell S as) =
        spell S bs ∧ Gains (∀ candidate ∈ l,
          Piece.founds (Wrap.pieces candidate S (spell S as)) = []) as bs := by
    intro l
    induction l with
    | nil => exact fun _ as => ⟨as, rfl, .refl (by simp) as⟩
    | cons candidate l ih =>
      intro hl as
      rw [List.forall_mem_cons] at hl
      obtain ⟨bs, hbs, hgain⟩ := exists_wrapAll_gains hS hl.1 as
      obtain ⟨cs, hcs, hgain'⟩ := ih hl.2 bs
      refine ⟨cs, by rw [List.foldl_cons, hbs, hcs], (hgain.trans hgain').mono ?_⟩
      rintro ⟨hnil, hall⟩
      -- where the first candidate is not found, the others are looked for in the same text
      have hsame : spell S bs = spell S as := by
        rw [← hbs, Wrap.wrapAll, Piece.mapFound_of_founds_nil hnil, Wrap.sources_pieces hl.1]
      rw [hsame] at hall
      exact List.forall_mem_cons.2 ⟨hnil, hall⟩
  exact key _ (fun _ h => h) as

/-- **Literal dollars that are escaped gain.** -/
theorem exists_escapeLiteral_gains (as : Layer) : ∃ bs,
    Dollar.escapeLiteral S (spell S as) = spell S bs ∧
      Gains (∀ span ∈ Piece.founds (Dollar.openSpans S (spell S as)),
        Dollar.readsAsMath (Dollar.interior span)) as bs := by
  obtain ⟨cs, rfl, hcs, hfounds⟩ := exists_open_cells hS as
  refine ⟨Cell.write (fun m => plain (Dollar.settle (spell S m))) cs, ?_, ?_⟩
  · rw [Dollar.escapeLiteral, ← hcs]
    exact Cell.mapFound_pieces fun m _ => (spell_plain _).symm
  · rw [← hcs, Cell.founds_pieces, List.forall_mem_map]
    refine gains_write fun m hm => ?_
    obtain ⟨body, rfl⟩ := hfounds m hm
    rw [spell_plain]
    have hinterior : Dollar.interior (['$'] ++ (body ++ ['$'])) = body :=
      Text.inner_append (n := 1) rfl rfl body
    by_cases hmath : Dollar.readsAsMath body
    · rw [settle_span, if_pos hmath, hinterior]
      exact .refl hmath _
    · refine .of_lt (retouched_settle body) fun μ hμ => ?_
      rw [hμ.plain, hμ.plain, settle_span, if_neg hmath]
      simp only [Text.weight_append]
      have hescaped : Text.weight ['$'] < Text.weight "\\$".toList := by decide
      omega

end

end MarkdownPrep
