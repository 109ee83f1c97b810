import MarkdownPrep.Proofs.Dollar.Reading
import MarkdownPrep.Proofs.Prepare.Written

/-!
# Delimited math stays math

Math that stands in brackets comes out in dollars at the same place, with nothing put into it and
its dollars unescaped (`prepare_keeps_delimited`). For a block that holds if no dollars before it
open a block that reaches over it; for inline math if also no dollar before it opens such a span,
and its own dollars are read as those of a span of math (`StandsAsMath`).

* `not_prepare_keeps_delimited`: where one of these fails, dollars are escaped or put in.
-/

namespace MarkdownPrep

open Stash

theorem Text.trimEnd_append {s : Text} {c : Char} (h : s.getLast? = some c) (hc : ¬ isBlank c)
    (t : Text) : trimEnd (s ++ t) = s ++ trimEnd t := by
  induction s with
  | nil => cases h
  | cons d s ih =>
    cases s with
    | nil =>
      obtain rfl : d = c := Option.some.inj h
      exact Text.trimEnd_cons hc t
    | cons e s =>
      rw [List.cons_append, trimEnd, ih (by simpa using h)]
      rfl

/-- In a text stands `body` between `first` and `last`, after `x` and before `y`; in the prepared
text it stands between `dollars`, after and before what is the same but for signs and white space at
the end. No backslash escapes the dollars before it, nor the one after it if that is single. -/
def StaysDelimited (c first last dollars body x y : Text) : Prop :=
  Text.unifyLineEnds c = x ++ (first ++ body ++ last ++ y) ∧
    ∃ p q, prepare c = p ++ (dollars ++ body ++ dollars ++ (Text.trimEnd q ++ ['\n'])) ∧
      p.rest = x.rest ∧ q.rest = y.rest ∧ p.getLast? ≠ some '\\' ∧
      (dollars = ['$'] → body.getLast? ≠ some '\\')

namespace Delimiter

/-- A bracketed block is found in a text as it is seen. -/
def FindsBlock (n : Text) (ps : List Piece) (body : Text) (qs : List Piece) : Prop :=
  blocks (seen n) = ps ++ .found ("\\[".toList ++ (body ++ "\\]".toList)) :: qs

/-- Bracketed inline math is found in a text as it is seen, its blocks made dollar blocks. -/
def FindsSpan (n : Text) (ps : List Piece) (body : Text) (qs : List Piece) : Prop :=
  inlines (Piece.mapFound dollarBlock (blocks (seen n))) =
    ps ++ .found ("\\(".toList ++ (body ++ "\\)".toList)) :: qs

/-- Brackets become dollars: what stands between `first` and `last` in a text stands between
`first'` and `last'` in the text with dollars, and the texts around it differ in signs only. -/
structure Rewritten (s first last first' last' body x y p q : Text) : Prop where
  source : s = x ++ (first ++ body ++ last ++ y)
  target : toDollars s = p ++ (first' ++ body ++ last' ++ q)
  before : p.rest = x.rest
  after : q.rest = y.rest

end Delimiter

/-- `body` stands in dollars, after `p` and before `q` in the text with its delimiters rewritten,
and is read as a span of math there, unless it stands in a dollar block. -/
structure StandsAsMath (n body p q : Text) : Prop where
  nonempty : body ≠ []
  dollar : '$' ∉ Delimiter.asWritten n body
  line : '\n' ∉ body
  amount : ¬ Amount.isBare (Text.trim body)
  unescaped : (Delimiter.asWritten n body).getLast? ≠ some '\\'
  before : p.getLast? ≠ some '\\' ∧ p.getLast? ≠ some '$'
  after : q.head? ≠ some '$'
  clear : Text.Clear Verbatim.displayRecogniser p (Delimiter.toDollars (Delimiter.seen n)) →
    ∃ ps qs, Verbatim.displayMath (Delimiter.toDollars (Delimiter.seen n)) = ps ++ qs ∧
      Piece.sources ps = p ∧
      Text.Clear Dollar.recogniser ((hideVerbatim n).2.hide .mathBlock ps).1
        (hideMathBlocks (Delimiter.toDollars (Delimiter.seen n)) (hideVerbatim n).2).1

namespace Layering

variable {n : Text} (L : Layering n)

section
variable (hclean : Clean (plain n))
include hclean

/-- Math that is given back in its place stays delimited. -/
theorem staysDelimited {c : Text} (hc : c ≠ []) (hcn : Text.unifyLineEnds c = n)
    {xs bs ys x y : Layer} {first last dollars : Text} (hlast : dollars.getLast? = some '$')
    (hseen : L.unamounted = xs ++ (plain first ++ (bs ++ plain last) ++ ys))
    (hback : L.mathBack = x ++ (plain dollars ++ (bs ++ plain dollars) ++ y))
    (hx : rest x = rest xs) (hy : rest y = rest ys)
    (hdollar : '$' ∉ Delimiter.asWritten n (spell n.unusedPrivate bs))
    (hopen : (L.outcome x).getLast? ≠ some (.char '\\'))
    (hclose : dollars = ['$'] →
      (Delimiter.asWritten n (spell n.unusedPrivate bs)).getLast? ≠ some '\\') :
    StaysDelimited c first last dollars (Delimiter.asWritten n (spell n.unusedPrivate bs))
      (Delimiter.asWritten n (spell n.unusedPrivate xs))
      (Delimiter.asWritten n (spell n.unusedPrivate ys)) := by
  have hS := isPrivateUse_unusedPrivate n
  have hxs : xs <:+: L.unamounted := ⟨[], _, hseen.symm⟩
  have hbs : bs <:+: L.unamounted := ⟨xs ++ plain first, plain last ++ ys, by simp [hseen]⟩
  have hys : ys <:+: L.unamounted :=
    ⟨xs ++ (plain first ++ (bs ++ plain last)), [], by simp [hseen]⟩
  rw [L.asWritten_spell hclean hxs, L.asWritten_spell hclean hys]
  rw [L.asWritten_spell hclean hbs] at hdollar hclose ⊢
  have hbody : L.outcome bs = L.source bs :=
    L.outcome_eq_source hbs fun hm => hdollar (mem_spell_of_char_mem hm)
  have hwhole := congrArg (spell n.unusedPrivate) L.source_unamounted
  rw [spell_plain, hseen] at hwhole
  have hfinal : settleDollars n = spell n.unusedPrivate (L.outcome x) ++ (dollars ++
      spell n.unusedPrivate (L.source bs) ++ dollars) ++ spell n.unusedPrivate (L.outcome y) := by
    have hout : L.final = L.outcome L.mathBack := rfl
    rw [L.settleDollars_eq hclean, hout, hback]
    simp [hbody]
  have hend : (spell n.unusedPrivate (L.outcome x) ++ (dollars ++
      spell n.unusedPrivate (L.source bs) ++ dollars)).getLast? = some '$' := by
    simp [List.getLast?_append, hlast]
  refine ⟨?_, spell n.unusedPrivate (L.outcome x), spell n.unusedPrivate (L.outcome y), ?_, ?_, ?_,
    fun h => hopen (getLast?_of_spell h (not_isMark_of_isSign hS (by decide))), hclose⟩
  · exact hcn.trans (hwhole.symm.trans (by simp))
  · rw [prepare, if_neg (by simpa using hc), hcn, hfinal, Text.trimEnd_append hend (by decide)]
    simp
  · rw [rest_spell hS, rest_spell hS, L.rest_outcome hx]
  · rw [rest_spell hS, rest_spell hS, L.rest_outcome hy]

end

/-- A place in the layers is one in the texts. -/
theorem rewritten {xs bs ys us vs : Layer} {first last first' last' : Text}
    (h : Brackets.Redelimited L.unamounted L.dollars first last first' last' xs bs ys us vs) :
    Delimiter.Rewritten (Delimiter.seen n) first last first' last' (spell n.unusedPrivate bs)
      (spell n.unusedPrivate xs) (spell n.unusedPrivate ys) (spell n.unusedPrivate us)
      (spell n.unusedPrivate vs) := by
  have hS := isPrivateUse_unusedPrivate n
  refine ⟨?_, ?_, ?_, ?_⟩
  · rw [L.seen_eq, h.source]
    simp
  · rw [L.toDollars_seen, h.target]
    simp
  · rw [rest_spell hS, rest_spell hS, h.before]
  · rw [rest_spell hS, rest_spell hS, h.after]

/-- The cells of a dollar block where nothing reaches over the place. -/
theorem exists_cells_of_block {as bs cs : Layer}
    (hdollars : L.dollars = as ++ (plain "\n$$".toList ++ (bs ++ plain "$$\n".toList) ++ cs))
    (hdollar : '$' ∉ spell n.unusedPrivate bs)
    (hclear : Text.Clear Verbatim.displayRecogniser (spell n.unusedPrivate as)
      (spell n.unusedPrivate L.dollars)) :
    ∃ ds es, L.blocks = ds ++ .found (plain "$$".toList ++ (bs ++ plain "$$".toList)) :: es ∧
      Cell.layer ds = as ++ plain ['\n'] ∧ Cell.layer es = plain ['\n'] ++ cs := by
  have hspell : spell n.unusedPrivate L.dollars = spell n.unusedPrivate as ++ ("\n$$".toList ++
      spell n.unusedPrivate bs ++ "$$\n".toList ++ spell n.unusedPrivate cs) := by
    simp [hdollars]
  rw [hspell] at hclear
  obtain ⟨ps, qs, hqs, hps⟩ := Verbatim.displayMath_eq hdollar hclear
  have hlayer : Cell.layer L.blocks = as ++ plain ['\n'] ++
      (plain "$$".toList ++ (bs ++ plain "$$".toList) ++ (plain ['\n'] ++ cs)) :=
    hdollars.trans (by simp)
  have hpieces : Cell.pieces n.unusedPrivate L.blocks = (ps ++ [.kept '\n']) ++
      .found (spell n.unusedPrivate (plain "$$".toList ++ (bs ++ plain "$$".toList))) :: qs := by
    rw [L.pieces_dollars, hspell, hqs]
    simp
  obtain ⟨ds, es, hblocks, hds, hes, -⟩ := Cell.exists_found hlayer hpieces
    (by simp [Piece.source, hps])
  exact ⟨ds, es, hblocks, hds, hes⟩

section
variable {as m cs : Layer} {body : Text} (hdollars : L.dollars = as ++ (m ++ cs))
  (hm : spell n.unusedPrivate m = Dollar.span body) (hdollar : '$' ∉ body)
include hdollars hm hdollar

/-- Where no block reaches over a dollar span that stands as math, the cells part at it. -/
theorem exists_cells_at_span (hne : body ≠ [])
    (hafter : (spell n.unusedPrivate cs).head? ≠ some '$') {ps qs : List Piece}
    (hpieces : Verbatim.displayMath (spell n.unusedPrivate L.dollars) = ps ++ qs)
    (hps : Piece.sources ps = spell n.unusedPrivate as) :
    ∃ ds ks es, L.blocks = ds ++ (ks ++ es) ∧ Cell.layer ds = as ∧ Cell.layer ks = m ∧
      Cell.layer es = cs ∧ Cell.pieces n.unusedPrivate ds = ps ∧
      ∀ kind k, Cell.hidden kind k ks = m := by
  have hspell : spell n.unusedPrivate L.dollars = spell n.unusedPrivate as ++
      (Dollar.span body ++ spell n.unusedPrivate cs) := by
    rw [hdollars, spell_append, spell_append, hm]
  obtain ⟨ds, ws, hblocks, hds, hws, hdp, hwp⟩ := Cell.exists_split hdollars
    (L.pieces_dollars.trans hpieces) hps
  rw [hspell] at hpieces
  rw [Verbatim.displayMath_eq_of_span hne hdollar hafter hpieces hps] at hwp
  obtain ⟨ks, es, rfl, rfl, hes, hkp, -⟩ := Cell.exists_split hws hwp
    (by rw [Piece.sources_keep, hm])
  exact ⟨ds, ks, es, hblocks, hds, rfl, hes, hdp, fun kind k =>
    (Cell.hidden_of_pieces_eq_keep hkp kind k).1⟩

end

/-- Dollar blocks put aside, in cells. -/
theorem hide_mathBlock {cs : List Cell} {ps : List Piece}
    (h : Cell.pieces n.unusedPrivate cs = ps) : ((hideVerbatim n).2.hide .mathBlock ps).1 =
      spell n.unusedPrivate (Cell.hidden .mathBlock L.verbatim.length cs) := by
  rw [L.hideVerbatim_eq, ← h]
  dsimp only
  rw [hide_pieces]

/-- In the text without blocks, a dollar span that stands as math is found. -/
theorem exists_cells_of_span {ds ks es : List Cell} {body : Text}
    (hblocks : L.blocks = ds ++ (ks ++ es))
    (hks : ∀ kind k, Cell.hidden kind k ks = Cell.layer ks)
    (hspan : spell n.unusedPrivate (Cell.layer ks) = Dollar.span body)
    (hdollar : '$' ∉ body) (hlast : body.getLast? ≠ some '\\')
    (h : StandsAsMath n body (spell n.unusedPrivate (Cell.layer ds))
      (spell n.unusedPrivate (Cell.layer es)))
    (hclear : Text.Clear Dollar.recogniser
      ((hideVerbatim n).2.hide .mathBlock (Cell.pieces n.unusedPrivate ds)).1
      (hideMathBlocks (Delimiter.toDollars (Delimiter.seen n)) (hideVerbatim n).2).1) :
    ∃ us vs, L.spans = us ++ .found (Cell.layer ks) :: vs ∧
      Cell.layer us = Cell.hidden .mathBlock L.verbatim.length ds := by
  have hS := isPrivateUse_unusedPrivate n
  have hlayer : Cell.layer L.spans = Cell.hidden .mathBlock L.verbatim.length ds ++
      (Cell.layer ks ++ Cell.hidden .mathBlock (L.verbatim.length + (Cell.founds ds).length +
        (Cell.founds ks).length) es) := by
    rw [L.layer_spans, hblocks, Cell.hidden_append, Cell.hidden_append, hks]
  have hspell := congrArg (spell n.unusedPrivate) hlayer
  rw [spell_append, spell_append, hspan] at hspell
  rw [L.toDollars_seen, hideMathBlocks, L.hide_mathBlock rfl, L.hide_mathBlock L.pieces_dollars,
    ← L.layer_spans, hspell] at hclear
  have hmark : ∀ c, isSign c → ¬ IsMark n.unusedPrivate c := fun c => not_isMark_of_isSign hS
  obtain ⟨ps, qs, hinline, hps⟩ := Verbatim.inlineMath_eq h.nonempty hdollar h.line hlast h.amount
    (Cell.getLast?_spell_hidden_ne (hmark _ (by decide)) h.before.1)
    (Cell.getLast?_spell_hidden_ne (hmark _ (by decide)) h.before.2)
    (Cell.head?_spell_hidden_ne (hmark _ (by decide)) h.after) hclear
  obtain ⟨us, vs, hsplit, hus, -, -⟩ := Cell.exists_found hlayer
    (by rw [L.pieces_spans, hspell, hinline, hspan]) hps
  exact ⟨us, vs, hsplit, hus⟩

section
variable {as m cs : Layer} {body : Text} (hdollars : L.dollars = as ++ (m ++ cs))
  (hm : spell n.unusedPrivate m = Dollar.span body) (hdollar : '$' ∉ body)
include hdollars hm hdollar

/-- A dollar span that stands in a block comes back with it. -/
theorem exists_mathBack_in_block
    (hbefore : (spell n.unusedPrivate as).getLast? ≠ some '$')
    (h : ¬ Text.Clear Verbatim.displayRecogniser (spell n.unusedPrivate as)
      (spell n.unusedPrivate L.dollars)) :
    ∃ x y, L.mathBack = x ++ (m ++ y) ∧ Retouched as x ∧ Retouched cs y := by
  have hspell : spell n.unusedPrivate L.dollars = spell n.unusedPrivate as ++
      (Dollar.span body ++ spell n.unusedPrivate cs) := by
    rw [hdollars, spell_append, spell_append, hm]
  rw [hspell] at h
  obtain ⟨ps, t, t', qs, block, hpieces, hblock, has⟩ :=
    Verbatim.exists_block_over_span hdollar hbefore h
  have hsource := (Verbatim.sources_displayMath _).symm.trans (congrArg Piece.sources hpieces)
  rw [← hspell, Piece.sources_append, Piece.sources_cons, Piece.source] at hsource
  obtain ⟨xs, bs, ys, hxs, hspellxs, rfl, hspellys⟩ := exists_layer_of_delimited
    (isPrivateUse_unusedPrivate n) (by decide) (by decide) hsource
  have hspellb : spell n.unusedPrivate (plain "$$".toList ++ (bs ++ plain "$$".toList)) =
      t ++ (spell n.unusedPrivate m ++ t') := by
    rw [hm, ← hblock]
    simp
  obtain ⟨ds, es, hblocks, rfl, rfl, -⟩ := Cell.exists_found hxs
    (by rw [L.pieces_dollars, hspell, hpieces, hspellb, hblock, hm]) hspellxs.symm
  obtain ⟨x, y, hback, hx, hy⟩ := L.exists_mathBack_of_block hblocks
  -- the span is a part of the block as a layer too
  obtain ⟨u, rfl, hu⟩ := exists_append_of_spell (hxs.symm.trans hdollars) (by rw [has, hspellxs])
  rw [spell_append, hspellxs] at has
  obtain rfl := List.append_cancel_left has
  rw [← List.append_assoc u] at hu
  obtain ⟨v, hv, rfl⟩ := exists_append_of_spell hu.symm
    (by rw [hspellb, spell_append, List.append_assoc])
  refine ⟨x ++ u, v ++ y, ?_, hx.append (.refl u), (Retouched.refl v).append hy⟩
  rw [hback, hv]
  simp

/-- **A dollar span that stands as math comes back in its place.** -/
theorem exists_mathBack_at_span (hlast : body.getLast? ≠ some '\\')
    (h : StandsAsMath n body (spell n.unusedPrivate as) (spell n.unusedPrivate cs)) :
    ∃ x y, L.mathBack = x ++ (m ++ y) ∧ Retouched as x ∧ Retouched cs y := by
  by_cases hblocks : Text.Clear Verbatim.displayRecogniser (spell n.unusedPrivate as)
    (spell n.unusedPrivate L.dollars)
  · obtain ⟨ps, qs, hpieces, hps, hspans⟩ := h.clear (L.toDollars_seen ▸ hblocks)
    obtain ⟨ds, ks, es, hcells, rfl, rfl, rfl, rfl, hkeep⟩ := L.exists_cells_at_span hdollars hm
      hdollar h.nonempty h.after (L.toDollars_seen ▸ hpieces) hps
    obtain ⟨us, vs, hfound, hus⟩ := L.exists_cells_of_span hcells hkeep hm hdollar hlast h hspans
    exact L.exists_mathBack_of_span hcells hkeep hfound hus
  · exact L.exists_mathBack_in_block hdollars hm hdollar h.before.2 hblocks

end

/-! ## Both kinds of brackets -/

section
variable (hclean : Clean (plain n)) {c body : Text} {ps qs : List Piece} (hc : c ≠ [])
  (hcn : Text.unifyLineEnds c = n) (hdollar : '$' ∉ Delimiter.asWritten n body)
include L hclean hc hcn hdollar

/-- **A bracketed block stays a block.** -/
theorem staysDelimited_of_block (hfound : Delimiter.FindsBlock n ps body qs)
    (hopen : ¬ "\\(".toList <:+: body) (hclose : ¬ "\\)".toList <:+: body) :
    ∃ p q, Delimiter.Rewritten (Delimiter.seen n) "\\[".toList "\\]".toList "\n$$".toList
        "$$\n".toList body (Piece.sources ps) (Piece.sources qs) p q ∧
      (Text.Clear Verbatim.displayRecogniser p (Delimiter.toDollars (Delimiter.seen n)) →
        StaysDelimited c "\\[".toList "\\]".toList "$$".toList (Delimiter.asWritten n body)
          (Delimiter.asWritten n (Piece.sources ps))
          (Delimiter.asWritten n (Piece.sources qs))) := by
  rw [Delimiter.FindsBlock, L.seen_eq] at hfound
  obtain ⟨xs, bs, ys, as, cs, hplace, hxs, rfl, hys⟩ :=
    L.bracketed.exists_place_of_block (isPrivateUse_unusedPrivate n) hfound hopen hclose
  rw [← L.layer_blocks] at hplace
  rw [← hxs, ← hys]
  refine ⟨_, _, L.rewritten hplace, fun hclear => ?_⟩
  rw [L.toDollars_seen] at hclear
  obtain ⟨ds, es, hblocks, hds, hes⟩ := L.exists_cells_of_block hplace.target
    (mt (Delimiter.mem_asWritten (by decide)) hdollar) hclear
  obtain ⟨u, v, hback, hu, hv⟩ := L.exists_mathBack_of_block hblocks
  have hrest : rest (as ++ plain ['\n']) = rest xs := by
    rw [rest_append, hplace.before, rest_plain, AllSigns.rest_eq_nil (by decide)]
    simp
  rw [hds] at hu
  rw [hes] at hv
  refine L.staysDelimited hclean hc hcn rfl hplace.source hback (hu.rest_eq.trans hrest) ?_
    hdollar ?_ (by simp)
  · rw [hv.rest_eq, rest_append, hplace.after, rest_plain, AllSigns.rest_eq_nil (by decide)]
    rfl
  · exact L.getLast?_outcome_ne hu hrest hplace.source (c := '[') (by simp) (by simp)

/-- **Bracketed inline math stays inline math.** -/
theorem staysDelimited_of_span (hfound : Delimiter.FindsSpan n ps body qs)
    (hmath : StandsAsMath n body (Piece.mapFound Delimiter.dollarSpan ps)
      (Piece.mapFound Delimiter.dollarSpan qs)) :
    ∃ x y, Delimiter.Rewritten (Delimiter.seen n) "\\(".toList "\\)".toList "$".toList
        "$".toList body x y (Piece.mapFound Delimiter.dollarSpan ps)
        (Piece.mapFound Delimiter.dollarSpan qs) ∧
      StaysDelimited c "\\(".toList "\\)".toList "$".toList (Delimiter.asWritten n body)
        (Delimiter.asWritten n x) (Delimiter.asWritten n y) := by
  rw [Delimiter.FindsSpan, L.seen_eq] at hfound
  obtain ⟨xs, bs, ys, as, cs, hplace, rfl, has, hcs⟩ :=
    L.bracketed.exists_place_of_span (isPrivateUse_unusedPrivate n) hfound
      (mt (Delimiter.mem_asWritten (by decide)) hdollar)
  have hbody := mt (Delimiter.mem_asWritten (c := '$') (by decide)) hdollar
  rw [← L.layer_blocks] at hplace
  rw [← has, ← hcs] at hmath ⊢
  refine ⟨_, _, L.rewritten hplace, ?_⟩
  have hlast : (spell n.unusedPrivate bs).getLast? ≠ some '\\' := by
    intro hl
    have hS := isPrivateUse_unusedPrivate n
    obtain ⟨w, hw⟩ := List.getLast?_eq_some_iff.1
      (getLast?_of_spell hl (not_isMark_of_isSign hS (by decide)))
    refine hmath.unescaped ?_
    rw [L.asWritten_spell hclean hplace.inside, hw, source_append, spell_append,
      show [Atom.char '\\'] = plain ['\\'] from rfl, source_plain, spell_plain]
    exact List.getLast?_concat
  obtain ⟨u, v, hback, hu, hv⟩ := L.exists_mathBack_at_span hplace.target (by simp [Dollar.span])
    hbody hlast hmath
  refine L.staysDelimited hclean hc hcn rfl hplace.source hback (hu.rest_eq.trans hplace.before)
    (hv.rest_eq.trans hplace.after) hdollar ?_ fun _ => hmath.unescaped
  refine L.getLast?_outcome_ne hu hplace.before hplace.source (c := '(') (by simp) fun hl => ?_
  obtain ⟨w, hw⟩ := List.getLast?_eq_some_iff.1 hl
  exact hmath.before.1 (by rw [hw, spell_append]; exact List.getLast?_concat)

end

end Layering

/-- Nothing is found in the empty text. -/
theorem ne_nil_of_finds {c : Text} {ps qs : List Piece} {body : Text}
    (h : Delimiter.FindsBlock (Text.unifyLineEnds c) ps body qs ∨
      Delimiter.FindsSpan (Text.unifyLineEnds c) ps body qs) : c ≠ [] := by
  rintro rfl
  have hseen : Delimiter.seen (Text.unifyLineEnds []) = [] := by decide +kernel
  rcases h with h | h
  · rw [Delimiter.FindsBlock, hseen] at h
    cases ps <;> cases h
  · rw [Delimiter.FindsSpan, hseen] at h
    cases ps <;> cases h

/-- The place of what stands in a text only once. -/
theorem Text.eq_of_append {s p w v : Text} (p' v' : Text) (h : s = p ++ (w ++ v))
    (hone : ∀ k ∈ List.range (s.length + 1), w <+: s.drop k → s.take k = p')
    (hs : s = p' ++ (w ++ v')) : p = p' ∧ v = v' := by
  subst h
  obtain rfl : p = p' := by
    have hlen : p.length ∈ List.range ((p ++ (w ++ v)).length + 1) := by
      rw [List.mem_range, List.length_append]
      omega
    rw [← hone p.length hlen (by rw [List.drop_left]; exact List.prefix_append w v),
      List.take_left]
  exact ⟨rfl, List.append_cancel_left (List.append_cancel_left hs)⟩

/-- Where every occurrence in dollars is escaped, nothing stays delimited. -/
theorem not_staysDelimited {c first last dollars body x y : Text}
    (h : ∀ k ∈ List.range ((prepare c).length + 1),
      dollars ++ body ++ dollars <+: (prepare c).drop k →
        ((prepare c).take k).getLast? = some '\\' ∨
          dollars = ['$'] ∧ body.getLast? = some '\\') :
    ¬ StaysDelimited c first last dollars body x y := by
  rintro ⟨-, p, q, hpq, -, -, hopen, hclose⟩
  have hlen : p.length < (prepare c).length + 1 := by
    rw [hpq, List.length_append]
    omega
  have hfound := h p.length (List.mem_range.2 hlen)
  rw [hpq, List.drop_left, List.take_left] at hfound
  rcases hfound (List.prefix_append _ _) with h | ⟨hd, h⟩
  · exact hopen h
  · exact hclose hd h

/-- **Math that brackets delimit stays math**, if no body of a token occurs in the text: between
dollars at the same place, with nothing put into it. -/
theorem prepare_keeps_delimited {c : Text}
    (hbody : ∀ kind i, ¬ tokenBody kind i <:+: Text.unifyLineEnds c) :
    (∀ ps body qs, Delimiter.FindsBlock (Text.unifyLineEnds c) ps body qs →
      ¬ "\\(".toList <:+: body → ¬ "\\)".toList <:+: body →
      '$' ∉ Delimiter.asWritten (Text.unifyLineEnds c) body →
      ∃ p q, Delimiter.Rewritten (Delimiter.seen (Text.unifyLineEnds c)) "\\[".toList
          "\\]".toList "\n$$".toList "$$\n".toList body (Piece.sources ps) (Piece.sources qs) p q ∧
        (Text.Clear Verbatim.displayRecogniser p
            (Delimiter.toDollars (Delimiter.seen (Text.unifyLineEnds c))) →
          StaysDelimited c "\\[".toList "\\]".toList "$$".toList
            (Delimiter.asWritten (Text.unifyLineEnds c) body)
            (Delimiter.asWritten (Text.unifyLineEnds c) (Piece.sources ps))
            (Delimiter.asWritten (Text.unifyLineEnds c) (Piece.sources qs)))) ∧
    ∀ ps body qs, Delimiter.FindsSpan (Text.unifyLineEnds c) ps body qs →
      StandsAsMath (Text.unifyLineEnds c) body (Piece.mapFound Delimiter.dollarSpan ps)
        (Piece.mapFound Delimiter.dollarSpan qs) →
      ∃ x y, Delimiter.Rewritten (Delimiter.seen (Text.unifyLineEnds c)) "\\(".toList
          "\\)".toList "$".toList "$".toList body x y (Piece.mapFound Delimiter.dollarSpan ps)
          (Piece.mapFound Delimiter.dollarSpan qs) ∧
        StaysDelimited c "\\(".toList "\\)".toList "$".toList
          (Delimiter.asWritten (Text.unifyLineEnds c) body)
          (Delimiter.asWritten (Text.unifyLineEnds c) x)
          (Delimiter.asWritten (Text.unifyLineEnds c) y) := by
  obtain ⟨L⟩ := exists_layering (Text.unifyLineEnds c)
  have hclean := clean_plain hbody
  exact ⟨fun _ _ _ hfound hopen hclose hdollar =>
      L.staysDelimited_of_block hclean (ne_nil_of_finds (.inl hfound)) rfl hdollar hfound hopen
        hclose,
    fun _ _ _ hfound hmath =>
      L.staysDelimited_of_span hclean (ne_nil_of_finds (.inr hfound)) rfl hmath.dollar hfound hmath⟩

theorem prepare_keeps_delimited_of_block_and_span :
    (∀ kind i, ¬ tokenBody kind i <:+: Text.unifyLineEnds "$5 `a` \\[x\\] \\(H2O\\)".toList) ∧
      StaysDelimited "$5 `a` \\[x\\] \\(H2O\\)".toList "\\[".toList "\\]".toList "$$".toList
        "x".toList "$5 `a` ".toList " \\(H2O\\)".toList ∧
      StaysDelimited "$5 `a` \\[x\\] \\(H2O\\)".toList "\\(".toList "\\)".toList "$".toList
        "H2O".toList "$5 `a` \\[x\\] ".toList [] := by
  have hbody := not_tokenBody_infix_of_not_mem
    (s := Text.unifyLineEnds "$5 `a` \\[x\\] \\(H2O\\)".toList) (by decide)
  refine ⟨hbody, ?_, ?_⟩
  · obtain ⟨p, q, h, hstays⟩ := (prepare_keeps_delimited hbody).1
      (Piece.keep "\uE000__CURRENCY_0__\uE000 \uE000__INLINE_CODE_0__\uE000 ".toList) "x".toList
      (Piece.keep " \\(H2O\\)".toList) (by unfold Delimiter.FindsBlock; decide +kernel)
      (by decide) (by decide) (by decide +kernel)
    obtain ⟨rfl, -⟩ := Text.eq_of_append
      "\uE000__CURRENCY_0__\uE000 \uE000__INLINE_CODE_0__\uE000 ".toList " $H2O$".toList h.target
      (by decide +kernel) (by decide +kernel)
    exact hstays ⟨Piece.keep "\uE000__CURRENCY_0__\uE000 \uE000__INLINE_CODE_0__\uE000 ".toList,
      .kept '\n' :: .found "$$x$$".toList :: Piece.keep "\n $H2O$".toList,
      by decide +kernel, by decide⟩
  · obtain ⟨x, y, h, hstays⟩ := (prepare_keeps_delimited hbody).2
      (Piece.keep "\uE000__CURRENCY_0__\uE000 \uE000__INLINE_CODE_0__\uE000 \n$$x$$\n ".toList)
      "H2O".toList [] (by unfold Delimiter.FindsSpan; decide +kernel)
      ⟨by decide, by decide +kernel, by decide, by decide, by decide +kernel, by decide, by decide,
        fun _ => ⟨
          Piece.keep "\uE000__CURRENCY_0__\uE000 \uE000__INLINE_CODE_0__\uE000 \n".toList ++
            .found "$$x$$".toList :: Piece.keep "\n ".toList,
          Piece.keep "$H2O$".toList, by decide +kernel, by decide,
          Piece.keep ("\uE000__CURRENCY_0__\uE000 \uE000__INLINE_CODE_0__\uE000 \n" ++
            "\uE000__MATH_BLOCK_1__\uE000\n ").toList,
          [.found "$H2O$".toList], by decide +kernel, by decide +kernel⟩⟩
    obtain ⟨rfl, rfl⟩ := Text.eq_of_append
      "\uE000__CURRENCY_0__\uE000 \uE000__INLINE_CODE_0__\uE000 \\[x\\] ".toList [] h.source
      (by decide +kernel) (by decide +kernel)
    exact hstays

/-- **Not all math that brackets delimit stays math**: a bare amount is escaped. Nor do these stay
delimited: inline math with a line end, with a dollar or a backslash next to it, with a backslash
before its last bracket, after a dollar that opens a span, or beside the body of a token; and a
block after dollars that open one. -/
theorem not_prepare_keeps_delimited :
    (Delimiter.FindsSpan "\\(5\\)".toList [] "5".toList [] ∧
      ¬ StaysDelimited "\\(5\\)".toList "\\(".toList "\\)".toList "$".toList "5".toList [] []) ∧
    (∀ e ∈ ([("x^2\n= y ", "42", "7$"), ("", "a\nH2O b", ""), ("$", "a H2O b", ""),
        ("", "a H2O b", "\\(c\\)"), ("\\", "a", ""), ("", "a\\", ""), ("z $ ", "a H2O b", ""),
        ("", "H2O", "__INLINE_MATH_1__\\(CO2\\)")] : List (String × String × String)),
      Delimiter.FindsSpan (e.1 ++ "\\(" ++ e.2.1 ++ "\\)" ++ e.2.2).toList
          (Delimiter.inlines e.1.toList) e.2.1.toList (Delimiter.inlines e.2.2.toList) ∧
        ¬ StaysDelimited (e.1 ++ "\\(" ++ e.2.1 ++ "\\)" ++ e.2.2).toList "\\(".toList
          "\\)".toList "$".toList e.2.1.toList e.1.toList e.2.2.toList) ∧
    Delimiter.FindsBlock "z $$ \\[a H2O b\\]".toList (Piece.keep "z $$ ".toList) "a H2O b".toList
        [] ∧
      ¬ StaysDelimited "z $$ \\[a H2O b\\]".toList "\\[".toList "\\]".toList "$$".toList
        "a H2O b".toList "z $$ ".toList [] := by
  refine ⟨⟨?_, not_staysDelimited ?_⟩, fun e he => ⟨?_, not_staysDelimited ?_⟩, ?_,
    not_staysDelimited ?_⟩
  · unfold Delimiter.FindsSpan
    decide +kernel
  · decide +kernel
  · revert e
    unfold Delimiter.FindsSpan
    decide +kernel
  · revert e
    decide +kernel
  · unfold Delimiter.FindsBlock
    decide +kernel
  · decide +kernel

end MarkdownPrep
