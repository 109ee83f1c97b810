import MarkdownPrep.Proofs.Delimiter.Redelimit
import MarkdownPrep.Proofs.Stash.Parts

/-!
# Brackets become dollars

The two passes of `Delimiter.toDollars` on a layer, in cells (`Brackets`). They make the text of a
layer that is retouched (`Brackets.toDollars_eq`, `Brackets.retouched`). What is found in brackets
has a place before and after the passes: a block if it holds no brackets of inline math
(`Brackets.exists_place_of_block`), inline math if it holds no dollar
(`Brackets.exists_place_of_span`).
-/

namespace MarkdownPrep

namespace Delimiter

theorem dollarBlock_append (body : Text) :
    dollarBlock ("\\[".toList ++ (body ++ "\\]".toList)) =
      "\n$$".toList ++ (body ++ "$$\n".toList) := by
  rw [dollarBlock, Text.inner_append (n := 2) rfl rfl, List.append_assoc]

theorem dollarSpan_append (body : Text) :
    dollarSpan ("\\(".toList ++ (body ++ "\\)".toList)) = "$".toList ++ (body ++ "$".toList) := by
  rw [dollarSpan, Text.inner_append (n := 2) rfl rfl]
  rfl

end Delimiter

namespace Stash

/-- A bracketed block written as a dollar block. -/
def toBlock : Layer → Layer := redelimit 2 "\n$$".toList "$$\n".toList

/-- Bracketed inline math written as a dollar span. -/
def toSpan : Layer → Layer := redelimit 2 "$".toList "$".toList

theorem toBlock_append (bs : Layer) : toBlock (plain "\\[".toList ++ (bs ++ plain "\\]".toList)) =
    plain "\n$$".toList ++ (bs ++ plain "$$\n".toList) := by
  rw [toBlock, redelimit_append (by decide) (by decide)]

theorem toSpan_append (bs : Layer) : toSpan (plain "\\(".toList ++ (bs ++ plain "\\)".toList)) =
    plain "$".toList ++ (bs ++ plain "$".toList) := by
  rw [toSpan, redelimit_append (by decide) (by decide)]

/-- The cells of a layer with its bracketed blocks found, and the cells of the layer with those
written as dollar blocks, with its bracketed inline math found. -/
structure Brackets (S : Char) (as : Layer) (brackets parens : List Cell) : Prop where
  layer_brackets : Cell.layer brackets = as
  pieces_brackets : Cell.pieces S brackets = Delimiter.blocks (spell S as)
  founds_brackets : ∀ m ∈ Cell.founds brackets,
    ∃ bs, m = plain "\\[".toList ++ (bs ++ plain "\\]".toList)
  layer_parens : Cell.layer parens = Cell.write toBlock brackets
  pieces_parens : Cell.pieces S parens = Delimiter.inlines (spell S (Cell.layer parens))
  founds_parens : ∀ m ∈ Cell.founds parens,
    ∃ bs, m = plain "\\(".toList ++ (bs ++ plain "\\)".toList)

theorem exists_brackets {S : Char} (hS : isPrivateUse S) (as : Layer) :
    ∃ brackets parens, Brackets S as brackets parens := by
  obtain ⟨brackets, hb, hbp, hbf⟩ := exists_delimited_cells hS
    (by decide : IsDelimiter "\\[".toList) (by decide : IsDelimiter "\\]".toList) as
  obtain ⟨parens, hp, hpp, hpf⟩ := exists_delimited_cells hS
    (by decide : IsDelimiter "\\(".toList) (by decide : IsDelimiter "\\)".toList)
    (Cell.write toBlock brackets)
  exact ⟨brackets, parens, hb, hbp, hbf, hp, by rw [hpp, hp, Delimiter.inlines], hpf⟩

namespace Brackets

variable {S : Char} {as : Layer} {brackets parens : List Cell}

theorem mapFound_brackets (h : Brackets S as brackets parens) {cs : List Cell}
    (hcs : ∀ m ∈ Cell.founds cs, m ∈ Cell.founds brackets) :
    Piece.mapFound Delimiter.dollarBlock (Cell.pieces S cs) = spell S (Cell.write toBlock cs) := by
  refine Cell.mapFound_pieces fun m hm => ?_
  obtain ⟨bs, rfl⟩ := h.founds_brackets m (hcs m hm)
  rw [toBlock_append]
  simpa using Delimiter.dollarBlock_append (spell S bs)

theorem mapFound_parens (h : Brackets S as brackets parens) {cs : List Cell}
    (hcs : ∀ m ∈ Cell.founds cs, m ∈ Cell.founds parens) :
    Piece.mapFound Delimiter.dollarSpan (Cell.pieces S cs) = spell S (Cell.write toSpan cs) := by
  refine Cell.mapFound_pieces fun m hm => ?_
  obtain ⟨bs, rfl⟩ := h.founds_parens m (hcs m hm)
  rw [toSpan_append]
  simpa using Delimiter.dollarSpan_append (spell S bs)

theorem blocks_eq (h : Brackets S as brackets parens) :
    Piece.mapFound Delimiter.dollarBlock (Delimiter.blocks (spell S as)) =
      spell S (Cell.layer parens) := by
  rw [← h.pieces_brackets, h.mapFound_brackets fun _ hm => hm, h.layer_parens]

theorem inlines_eq (h : Brackets S as brackets parens) :
    Delimiter.inlines (Piece.mapFound Delimiter.dollarBlock (Delimiter.blocks (spell S as))) =
      Cell.pieces S parens := by
  rw [h.blocks_eq, h.pieces_parens]

/-- **The brackets of a text become dollars.** -/
theorem toDollars_eq (h : Brackets S as brackets parens) :
    Delimiter.toDollars (spell S as) = spell S (Cell.write toSpan parens) := by
  rw [Delimiter.toDollars, h.inlines_eq, h.mapFound_parens fun _ hm => hm]

/-- **Brackets that become dollars retouch the layer.** -/
theorem retouched (h : Brackets S as brackets parens) :
    Retouched as (Cell.write toSpan parens) := by
  have hblocks : Retouched (Cell.layer brackets) (Cell.write toBlock brackets) :=
    retouched_write_redelimit (by decide) (by decide) (by decide) (by decide) (by decide)
      (by decide) (by decide) (by decide) h.founds_brackets
  have hspans : Retouched (Cell.layer parens) (Cell.write toSpan parens) :=
    retouched_write_redelimit (by decide) (by decide) (by decide) (by decide) (by decide)
      (by decide) (by decide) (by decide) h.founds_parens
  rw [h.layer_brackets] at hblocks
  rw [h.layer_parens] at hspans
  exact hblocks.trans hspans

/-! ## A place before and after -/

/-- Between `first` and `last` in a layer stands `bs`, and at the same place in another layer it
stands between `first'` and `last'`. -/
structure Redelimited (as as' : Layer) (first last first' last' : Text) (xs bs ys us vs : Layer) :
    Prop where
  source : as = xs ++ (plain first ++ (bs ++ plain last) ++ ys)
  target : as' = us ++ (plain first' ++ (bs ++ plain last') ++ vs)
  before : rest us = rest xs
  after : rest vs = rest ys

theorem Redelimited.inside {as as' : Layer} {first last first' last' : Text}
    {xs bs ys us vs : Layer} (h : Redelimited as as' first last first' last' xs bs ys us vs) :
    bs <:+: as := ⟨xs ++ plain first, plain last ++ ys, by simp [h.source]⟩

theorem delimits_brackets (h : Brackets S as brackets parens) :
    Cell.Delimits "\n$$".toList "$$\n".toList "\\[".toList "\\]".toList toBlock id brackets := by
  intro m hm
  obtain ⟨bs, rfl⟩ := h.founds_brackets m hm
  exact ⟨bs, toBlock_append bs, rfl⟩

theorem delimits_parens (h : Brackets S as brackets parens) :
    Cell.Delimits "\\(".toList "\\)".toList "$".toList "$".toList id toSpan parens := by
  intro m hm
  obtain ⟨bs, rfl⟩ := h.founds_parens m hm
  exact ⟨bs, rfl, toSpan_append bs⟩

/-- **A bracketed block that holds no brackets of inline math** has a place before and after. -/
theorem exists_place_of_block (hS : isPrivateUse S) (h : Brackets S as brackets parens)
    {ps qs : List Piece} {body : Text} (hfound : Delimiter.blocks (spell S as) =
      ps ++ .found ("\\[".toList ++ (body ++ "\\]".toList)) :: qs)
    (hopen : ¬ "\\(".toList <:+: body) (hclose : ¬ "\\)".toList <:+: body) :
    ∃ xs bs ys us vs, Redelimited as (Cell.write toSpan parens) "\\[".toList "\\]".toList
      "\n$$".toList "$$\n".toList xs bs ys us vs ∧ spell S xs = Piece.sources ps ∧
      spell S bs = body ∧ spell S ys = Piece.sources qs := by
  have hsource := Text.source_cut (Recogniser.honest_enclosed (by decide) "\\]".toList)
    (spell S as) |>.symm.trans (congrArg Piece.sources hfound)
  rw [Piece.sources_append, Piece.sources_cons, Piece.source, ← List.append_assoc _ body] at hsource
  obtain ⟨xs, bs, ys, rfl, hxs, rfl, hys⟩ :=
    exists_layer_of_delimited hS (by decide) (by decide) hsource
  obtain ⟨ds, es, rfl, rfl, rfl, -⟩ := Cell.exists_found h.layer_brackets
    (by rw [h.pieces_brackets, hfound, spell_append, spell_append, spell_plain, spell_plain])
    hxs.symm
  -- the dollar block stands in the layer where brackets of inline math are looked for
  have hlayer : Cell.write id parens = Cell.write toBlock ds ++
      (plain "\n$$".toList ++ (bs ++ plain "$$\n".toList) ++ Cell.write toBlock es) := by
    rw [Cell.write_id, h.layer_parens, Cell.write_append, Cell.write_found, toBlock_append]
  obtain ⟨us, vs, htarget, hus, hvs⟩ := Cell.exists_write_of_disjoint h.delimits_parens
    (by decide) (List.prefix_refl _) (List.suffix_refl _) (by decide) (by decide) (by decide)
    (fun hm => hopen (infix_spell_of_plain hm)) (fun hm => hclose (infix_spell_of_plain hm)) hlayer
  obtain ⟨hds, hes⟩ := Cell.delimits_append.1 h.delimits_brackets
  rw [← Cell.rest_write (by decide) hds, Cell.write_id] at hus
  rw [← Cell.rest_write (by decide) hes.of_cons, Cell.write_id] at hvs
  exact ⟨_, bs, _, us, vs, ⟨rfl, htarget, hus, hvs⟩, hxs, rfl, hys⟩

/-- **Bracketed inline math that holds no dollar** has a place before and after. -/
theorem exists_place_of_span (hS : isPrivateUse S) (h : Brackets S as brackets parens)
    {ps qs : List Piece} {body : Text} (hfound : Delimiter.inlines (Piece.mapFound
      Delimiter.dollarBlock (Delimiter.blocks (spell S as))) =
        ps ++ .found ("\\(".toList ++ (body ++ "\\)".toList)) :: qs) (hdollar : '$' ∉ body) :
    ∃ xs bs ys us vs, Redelimited as (Cell.write toSpan parens) "\\(".toList "\\)".toList
      "$".toList "$".toList xs bs ys us vs ∧ spell S bs = body ∧
      spell S us = Piece.mapFound Delimiter.dollarSpan ps ∧
      spell S vs = Piece.mapFound Delimiter.dollarSpan qs := by
  rw [h.inlines_eq] at hfound
  have hsource := Cell.sources_pieces.symm.trans (congrArg Piece.sources hfound)
  rw [Piece.sources_append, Piece.sources_cons, Piece.source, ← List.append_assoc _ body] at hsource
  obtain ⟨xs, bs, ys, hlayer, hxs, rfl, hys⟩ :=
    exists_layer_of_delimited hS (by decide) (by decide) hsource
  obtain ⟨ds, es, rfl, rfl, rfl, hds⟩ := Cell.exists_found hlayer
    (by rw [hfound, spell_append, spell_append, spell_plain, spell_plain]) hxs.symm
  have hwrite : Cell.write toBlock brackets = Cell.layer ds ++
      (plain "\\(".toList ++ (bs ++ plain "\\)".toList) ++ Cell.layer es) := by
    rw [← h.layer_parens, Cell.layer_append, Cell.layer_found]
  obtain ⟨us, vs, has, hus, hvs⟩ := Cell.exists_write_of_disjoint h.delimits_brackets
    (by decide) (by decide : ['\n', '$'] <+: "\n$$".toList)
    (by decide : ['$', '\n'] <:+ "$$\n".toList) (by decide) (by decide) (by decide)
    (fun hm => hdollar ((infix_spell_of_plain hm).subset (by simp)))
    (fun hm => hdollar ((infix_spell_of_plain hm).subset (by simp))) hwrite
  obtain ⟨hd, he⟩ := Cell.delimits_append.1 h.delimits_parens
  rw [Cell.write_id, h.layer_brackets] at has
  have hes : Cell.pieces S es = qs := by
    rw [Cell.pieces_append, hds, Cell.pieces_found] at hfound
    exact (List.cons.inj (List.append_cancel_left hfound)).2
  refine ⟨us, bs, vs, Cell.write toSpan ds, Cell.write toSpan es, ⟨has, ?_, ?_, ?_⟩, rfl, ?_, ?_⟩
  · rw [Cell.write_append, Cell.write_found, toSpan_append]
  · rw [Cell.rest_write (by decide) hd, Cell.write_id, hus]
  · rw [Cell.rest_write (by decide) he.of_cons, Cell.write_id, hvs]
  · rw [← hds, h.mapFound_parens fun m hm => by simp [hm]]
  · rw [← hes, h.mapFound_parens fun m hm => by simp [hm]]

end Brackets

end Stash

end MarkdownPrep
