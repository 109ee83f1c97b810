import MarkdownPrep.Proofs.Amount.Blind
import MarkdownPrep.Proofs.Fence.Line
import MarkdownPrep.Proofs.Prepare.Passes
import MarkdownPrep.Proofs.Verbatim.Blind
import MarkdownPrep.Proofs.Wrap.Blind

/-!
# The passes do not see the dress

Every pass after the first ones cuts a text alike whatever its tokens are called, or makes the text
of the same layer. Inline math with a token in it is never taken for an amount, and a span with a
token in it never for a literal one.
-/

namespace MarkdownPrep

/-- A text with a private use character in it is no bare amount. -/
theorem Amount.not_isBare_of_mem {s : Text} {c : Char} (hc : isPrivateUse c) (h : c ∈ s) :
    isBare s = false := by
  obtain ⟨u, v, rfl⟩ := List.append_of_mem h
  refine isBare_append ?_ (List.cons_ne_nil _ _) u
  rintro d ⟨⟩
  exact hc

namespace Stash

/-! ## Cutting -/

theorem uniform_amounts : Uniform (fun m => ∃ t, m = plain t) fun _ => Amount.amounts :=
  blind_amounts.exists_cells

theorem uniform_displayMath :
    Uniform (fun m => ∃ bs, m = plain "$$".toList ++ (bs ++ plain "$$".toList))
      fun _ => Verbatim.displayMath :=
  (blind_enclosed (by decide) (by decide)).exists_cells

theorem uniform_inlineCode : Uniform (fun _ => True) fun _ => Verbatim.inlineCode :=
  blind_code.exists_cells

theorem uniform_spans :
    Uniform (fun m => ∃ bs, m = .char '$' :: (bs ++ [.char '$'])) fun _ => Dollar.spans :=
  blind_spans.exists_cells

theorem interior_spell (d : Dress) (bs : Layer) :
    Dollar.interior (d.spell (.char '$' :: (bs ++ [.char '$']))) = d.spell bs := by
  have hspell : d.spell (.char '$' :: (bs ++ [.char '$'])) = ['$'] ++ (d.spell bs ++ ['$']) := by
    simp
  rw [hspell]
  exact Text.inner_append (n := 1) rfl rfl _

theorem uniform_inlineMath : Uniform (fun _ => True) fun _ => Verbatim.inlineMath := by
  refine uniform_spans.retain (p := fun _ span => !Amount.isBare (Text.trim (Dollar.interior span))) ?_
  rintro _ ⟨bs, rfl⟩
  rcases eq_plain_or_exists_token bs with ⟨s, rfl⟩ | ⟨kind, i, hmem⟩
  · cases h : Amount.isBare (Text.trim s)
    · exact .inl ⟨trivial, fun d _ => by rw [interior_spell, Dress.spell_plain, h]; rfl⟩
    · exact .inr fun d _ => by rw [interior_spell, Dress.spell_plain, h]; rfl
  · refine .inl ⟨trivial, fun d hd => ?_⟩
    have hin : d.sentinel ∈ Text.trim (d.spell bs) :=
      Text.mem_trim (Dress.sentinel_mem_spell hmem) (not_isBlank_of_isPrivateUse hd.1)
    rw [interior_spell, Amount.not_isBare_of_mem hd.1 hin]
    rfl

/-- Spans with a token in them are left alone in every dress. -/
theorem uniform_openSpans :
    Uniform (fun m => ∃ body, m = plain (['$'] ++ (body ++ ['$']))) Dollar.openSpans := by
  refine uniform_spans.retain (p := fun S s => !List.contains s S) ?_
  rintro _ ⟨bs, rfl⟩
  rcases eq_plain_or_exists_token bs with ⟨s, rfl⟩ | ⟨kind, i, hmem⟩
  · have hplain : Atom.char '$' :: (plain s ++ [.char '$']) = plain (['$'] ++ (s ++ ['$'])) := by
      simp
    rw [hplain]
    refine .inl ⟨⟨s, rfl⟩, fun d hd => ?_⟩
    rw [Dress.spell_plain]
    simpa using sound_plain.1 hd.2
  · refine .inr fun d _ => ?_
    have hin : d.sentinel ∈ d.spell (.char '$' :: (bs ++ [.char '$'])) :=
      Dress.sentinel_mem_spell (List.mem_cons_of_mem _ (List.mem_append_left _ hmem))
    rw [List.contains_iff_mem.2 hin]
    rfl

/-! ## Rewriting -/

/-- **Brackets become dollars alike.** -/
theorem rewrites_toDollars : Rewrites fun _ => Delimiter.toDollars := by
  have hblocks : Rewrites fun _ s => Piece.mapFound Delimiter.dollarBlock (Delimiter.blocks s) := by
    refine Uniform.mapFound (f := fun _ => Delimiter.blocks) (blind_enclosed (by decide)
      (by decide)).exists_cells ?_
    rintro _ ⟨bs, rfl⟩
    refine ⟨plain "\n$$".toList ++ (bs ++ plain "$$\n".toList), ?_, fun d _ => ?_⟩
    · exact retouched_delimited (by decide) (by decide) (by decide) (by decide) (by decide)
        (by decide) bs
    · simpa using Delimiter.dollarBlock_append (d.spell bs)
  have hspans : Rewrites fun _ s => Piece.mapFound Delimiter.dollarSpan (Delimiter.inlines s) := by
    refine Uniform.mapFound (f := fun _ => Delimiter.inlines) (blind_enclosed (by decide)
      (by decide)).exists_cells ?_
    rintro _ ⟨bs, rfl⟩
    refine ⟨plain "$".toList ++ (bs ++ plain "$".toList), ?_, fun d _ => ?_⟩
    · exact retouched_delimited (by decide) (by decide) (by decide) (by decide) (by decide)
        (by decide) bs
    · simpa using Delimiter.dollarSpan_append (d.spell bs)
  exact hblocks.comp hspans

theorem rewrites_wrapAll {candidate : Text → Option Nat} (h : candidate ∈ Wrap.candidates) :
    Rewrites (Wrap.wrapAll candidate) := by
  refine Uniform.mapFound (f := Wrap.pieces candidate) (blind_wrap h).exists_cells fun m _ => ?_
  refine ⟨plain "$".toList ++ (m ++ plain "$".toList), ?_, fun d _ => by simp⟩
  exact retouched_around "$".toList "$".toList (by decide) (by decide) (by decide) (by decide) m

/-- **Bare math is wrapped alike.** -/
theorem rewrites_wrapBareMath : Rewrites wrapBareMath := by
  have key : ∀ l : List (Text → Option Nat), (∀ candidate ∈ l, candidate ∈ Wrap.candidates) →
      Rewrites fun S s => l.foldl (fun s candidate => Wrap.wrapAll candidate S s) s := by
    intro l
    induction l with
    | nil => exact fun _ => rewrites_id
    | cons candidate l ih =>
      intro hl
      rw [List.forall_mem_cons] at hl
      exact (rewrites_wrapAll hl.1).comp (ih hl.2)
  exact key _ fun _ h => h

/-- **Literal dollars are escaped alike.** -/
theorem rewrites_escapeLiteral : Rewrites Dollar.escapeLiteral := by
  refine Uniform.mapFound uniform_openSpans ?_
  rintro _ ⟨body, rfl⟩
  refine ⟨plain (Dollar.settle (['$'] ++ (body ++ ['$']))), retouched_settle body, fun d _ => ?_⟩
  rw [Dress.spell_plain, Dress.spell_plain]

end Stash

end MarkdownPrep
