import MarkdownPrep.Dollar.Literal
import MarkdownPrep.Proofs.Amount.Read
import MarkdownPrep.Proofs.Delimiter.Brackets
import MarkdownPrep.Proofs.Wrap.Place

/-!
# The passes on layers

Each pass over a text with tokens respects them: what it finds stands between atoms. So a pass that
puts stretches aside cuts the layer into cells, and a pass that rewrites makes the text of another
layer, which is `Retouched`: bare math is wrapped (`exists_wrapBareMath`), literal dollars are
escaped (`exists_escapeLiteral`). How brackets become dollars is in `Stash.Brackets`.
-/

namespace MarkdownPrep

namespace Stash

/-- A text without sentinels is the text of characters. -/
theorem eq_plain_of_not_mem {S : Char} {as : Layer} (h : S ∉ spell S as) :
    as = plain (spell S as) := by
  obtain ⟨as', has, hnil⟩ := exists_plain_of_spell (List.append_nil (spell S as)).symm h
  rw [spell_eq_nil_iff.1 hnil, List.append_nil] at has
  exact has

/-- A span is escaped if its interior does not read as math. -/
theorem settle_span (body : Text) : Dollar.settle (['$'] ++ (body ++ ['$'])) =
    if Dollar.readsAsMath body then ['$'] ++ (body ++ ['$'])
    else "\\$".toList ++ (body ++ "\\$".toList) := by
  have hinterior : Dollar.interior (['$'] ++ (body ++ ['$'])) = body :=
    Text.inner_append (n := 1) rfl rfl body
  rw [Dollar.settle, hinterior, List.append_assoc]

theorem retouched_settle (body : Text) : Retouched (plain (['$'] ++ (body ++ ['$'])))
    (plain (Dollar.settle (['$'] ++ (body ++ ['$'])))) := by
  rw [settle_span]
  split
  · exact .refl _
  · have hesc : Retouched (plain ['$']) (plain "\\$".toList) :=
      retouched_plain (by decide) (by decide) (by decide) (by decide)
    simp only [plain_append]
    exact hesc.append ((Retouched.refl _).append hesc)

/-- What is found stands in its place. -/
theorem Cell.forall_founds_of_placed {S : Char} {P : Text → Prop} {s : Text} {cs : List Cell}
    (h : Piece.Placed (fun _ t _ => P t) s (pieces S cs)) : ∀ as ∈ founds cs, P (spell S as) :=
  fun _ has => Piece.forall_founds_of_placed h _ (founds_pieces ▸ List.mem_map_of_mem has)

end Stash

open Stash

section
variable {S : Char} (hS : isPrivateUse S)
include hS

/-! ## Amounts -/

/-- An amount holds no sentinel and begins where no token reaches. -/
theorem Amount.IsWritten.between {s t u : Text} (h : Amount.IsWritten t) : Between S s t u := by
  refine ⟨.inr fun c hc => ?_, .inr fun hm => ?_⟩
  · obtain ⟨d, hd, hsign⟩ := h.head
    rw [List.head?_append, hd] at hc
    obtain rfl := Option.some.inj hc
    rintro (rfl | htok)
    · exact Amount.not_isPrivateUse_of_isAmountChar (h.all d (List.mem_of_head? hd)) hS
    · rcases hsign with rfl | rfl <;> revert htok <;> decide
  · exact Amount.not_isPrivateUse_of_isAmountChar (h.all S hm) hS

theorem exists_amounts (as : Layer) :
    ∃ cs, Cell.layer cs = as ∧ Cell.pieces S cs = Amount.amounts (spell S as) ∧
      ∀ bs ∈ Cell.founds cs, ∃ t, bs = plain t ∧ Amount.IsWritten t := by
  have hplaced := Amount.placed_amounts (spell S as)
  obtain ⟨cs, rfl, hcs⟩ := exists_cells (Amount.sources_amounts (spell S as))
    (hplaced.mono fun _ _ _ h => h.between hS)
  refine ⟨cs, rfl, hcs, fun bs hbs => ?_⟩
  have hwritten := Cell.forall_founds_of_placed (hcs ▸ hplaced) bs hbs
  refine ⟨spell S bs, eq_plain_of_not_mem fun hm => ?_, hwritten⟩
  exact Amount.not_isPrivateUse_of_isAmountChar (hwritten.all S hm) hS

/-! ## Wrapping and escaping -/

theorem Wrap.InPlace.between {s t u : Text} (h : Wrap.InPlace S s t u) : Between S s t u := by
  refine ⟨.inl fun c hc => not_isMark_of_isEdge hS ?_, .inr h.sentinel⟩
  have hb := h.before
  rw [hc] at hb
  simpa [isEdge] using .inr hb

theorem exists_wrap_cells {candidate : Text → Option Nat} (h : candidate ∈ Wrap.candidates)
    (as : Layer) : ∃ cs, Cell.layer cs = as ∧
      Cell.pieces S cs = Wrap.pieces candidate S (spell S as) :=
  exists_cells (Wrap.sources_pieces h S (spell S as))
    ((Wrap.placed_pieces h S _).mono fun _ _ _ h => h.between hS)

theorem exists_wrapAll {candidate : Text → Option Nat} (h : candidate ∈ Wrap.candidates)
    (as : Layer) : ∃ bs, Wrap.wrapAll candidate S (spell S as) = spell S bs ∧ Retouched as bs := by
  obtain ⟨cs, rfl, hcs⟩ := exists_wrap_cells hS h as
  rw [Wrap.wrapAll, ← hcs]
  refine exists_retouched fun bs _ => ⟨plain "$".toList ++ (bs ++ plain "$".toList), by simp, ?_⟩
  exact retouched_around "$".toList "$".toList (by decide) (by decide) (by decide) (by decide) bs

theorem exists_wrapBareMath (as : Layer) :
    ∃ bs, wrapBareMath S (spell S as) = spell S bs ∧ Retouched as bs := by
  have key : ∀ l : List (Text → Option Nat), (∀ candidate ∈ l, candidate ∈ Wrap.candidates) →
      ∀ as, ∃ bs, l.foldl (fun s candidate => Wrap.wrapAll candidate S s) (spell S as) =
        spell S bs ∧ Retouched as bs := by
    intro l
    induction l with
    | nil => exact fun _ as => ⟨as, rfl, .refl as⟩
    | cons candidate l ih =>
      intro hl as
      rw [List.forall_mem_cons] at hl
      obtain ⟨bs, hbs, hr⟩ := exists_wrapAll hS hl.1 as
      obtain ⟨cs, hcs, hr'⟩ := ih hl.2 bs
      exact ⟨cs, by rw [List.foldl_cons, hbs, hcs], hr.trans hr'⟩
  exact key _ (fun _ h => h) as

/-- The spans of which literal dollars are escaped consist of characters. -/
theorem exists_open_cells (as : Layer) : ∃ cs, Cell.layer cs = as ∧
    Cell.pieces S cs = Dollar.openSpans S (spell S as) ∧
    ∀ m ∈ Cell.founds cs, ∃ body, m = plain (['$'] ++ (body ++ ['$'])) := by
  have hspans := Piece.placed_retain (p := (!List.contains · S)) (Dollar.placed_spans (spell S as))
  obtain ⟨cs, rfl, hcs⟩ := exists_cells (Dollar.sources_openSpans S (spell S as)) <| by
    refine Piece.Placed.mono hspans ?_
    rintro s t u ⟨⟨body, rfl⟩, -⟩
    exact (framed_of_ends (by decide) (by decide) body u).between hS
  have hplaced : Piece.Placed (fun _ t _ => (∃ body, t = '$' :: body ++ ['$']) ∧ !t.contains S) []
    (Cell.pieces S cs) := hcs ▸ hspans
  refine ⟨cs, rfl, hcs, fun bs hbs => ?_⟩
  obtain ⟨⟨body, hbody⟩, hno⟩ := Cell.forall_founds_of_placed hplaced bs hbs
  have hplain := eq_plain_of_not_mem (by simpa using hno : S ∉ spell S bs)
  exact ⟨body, by rw [hplain, hbody]; rfl⟩

theorem exists_escapeLiteral (as : Layer) :
    ∃ bs, Dollar.escapeLiteral S (spell S as) = spell S bs ∧ Retouched as bs := by
  obtain ⟨cs, rfl, hcs, hfounds⟩ := exists_open_cells hS as
  rw [Dollar.escapeLiteral, ← hcs]
  refine exists_retouched fun bs hbs => ?_
  obtain ⟨body, rfl⟩ := hfounds bs hbs
  exact ⟨plain (Dollar.settle (['$'] ++ (body ++ ['$']))), by simp, retouched_settle body⟩

end

end MarkdownPrep
