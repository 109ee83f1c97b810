import MarkdownPrep.Proofs.Prepare.Frame
import MarkdownPrep.Proofs.Prepare.Written

/-!
# Amounts come out escaped

Every amount that is put aside comes out once, in its place, with a backslash before its dollar, also
if it stands in math; and of the text between two amounts no character is lost, made up or moved but
signs (`prepare_escapes_amounts`). The amounts of a layer are rows of tokens once they are put aside,
and retouching keeps the tokens apart (`exists_rows`).
-/

namespace MarkdownPrep

namespace Stash

/-- A text that was found with the layer that follows it up to the next one, before and after a
change; `index` is the number of its token. -/
structure Row where
  index : Nat
  found : Text
  before : Layer
  after : Layer

/-- **Stretches of characters that were put aside part the layer.** What is retouched around their
tokens is retouched between each two of them. -/
theorem exists_rows {S : Char} {kind : Kind} {cs : List Cell} (n : Nat) {w bs : Layer}
    (hplain : ∀ as ∈ Cell.founds cs, ∃ t, as = plain t)
    (h : Retouched (w ++ Cell.hidden kind n cs) bs) :
    ∃ (x y : Layer) (rows : List Row),
      Cell.layer cs = x ++ rows.flatMap (fun r => plain r.found ++ r.before) ∧
      Cell.pieces S cs = Piece.keep (spell S x) ++
        rows.flatMap (fun r => .found r.found :: Piece.keep (spell S r.before)) ∧
      bs = y ++ rows.flatMap (fun r => .token kind r.index :: r.after) ∧
      Retouched (w ++ x) y ∧ (∀ r ∈ rows, Retouched r.before r.after) ∧
      Cell.founds cs = rows.map (fun r => plain r.found) ∧
      rows.map Row.index = List.range' n rows.length := by
  induction cs generalizing n w bs with
  | nil => exact ⟨[], bs, [], rfl, rfl, by simp, h, by simp, rfl, rfl⟩
  | cons c cs ih =>
    cases c with
    | kept a =>
      have hshift : w ++ Cell.hidden kind n (.kept a :: cs) =
          (w ++ [a]) ++ Cell.hidden kind n cs := by simp [Cell.hidden]
      rw [hshift] at h
      obtain ⟨x, y, rows, hl, hp, rfl, hxy, hrows, hf, hi⟩ := ih n hplain h
      refine ⟨a :: x, y, rows, ?_, ?_, rfl, by simpa using hxy, hrows, hf, hi⟩
      · rw [Cell.layer_kept, hl]
        rfl
      · rw [Cell.pieces_kept, hp, ← List.append_assoc]
        simp [Piece.keep, spell]
    | found m =>
      obtain ⟨t, rfl⟩ := hplain m List.mem_cons_self
      obtain ⟨y, bs, rfl, hy, hbs⟩ := h.exists_split
      obtain ⟨x, z, rows, hl, hp, rfl, hxz, hrows, hf, hi⟩ :=
        ih (n + 1) (w := []) (fun as has => hplain as (List.mem_cons_of_mem _ has)) hbs
      refine ⟨[], y, ⟨n, t, x, z⟩ :: rows, ?_, ?_, by simp, by simpa using hy, ?_, ?_, ?_⟩
      · rw [Cell.layer_found, hl]
        simp
      · rw [Cell.pieces_found, hp, spell_plain]
        simp [Piece.keep]
      · exact List.forall_mem_cons.2 ⟨hxz, hrows⟩
      · rw [Cell.founds_found, hf]
        rfl
      · rw [List.map_cons, hi, List.length_cons, List.range'_succ]

/-- The token of a stretch of characters stands for it. -/
theorem giveBackIn_entry {p : Kind → Bool} {kind : Kind} (hp : p kind) (newer older : Store)
    (t : Text) : giveBackIn p (newer ++ (kind, plain t) :: older) [.token kind older.length] =
      plain t := by
  induction newer with
  | nil =>
    rw [List.nil_append, giveBackIn, if_pos hp, exchange_self_cons]
    simp
  | cons e newer ih =>
    obtain ⟨kind', new⟩ := e
    have hne : (newer ++ (kind, plain t) :: older).length ≠ older.length := by simp; omega
    rw [List.cons_append, giveBackIn, exchange_of_not_mem, ite_self, ih]
    intro hm
    exact hne (Atom.token.inj (List.mem_singleton.1 hm)).2

theorem giveBackIn_flatMap {p : Kind → Bool} {es : Store} {α : Type} (f : α → Layer)
    (rs : List α) : giveBackIn p es (rs.flatMap f) = rs.flatMap fun r => giveBackIn p es (f r) := by
  induction rs with
  | nil => exact giveBackIn_empty es
  | cons r rs ih => rw [List.flatMap_cons, List.flatMap_cons, giveBackIn_append, ih]

theorem spell_flatMap {S : Char} {α : Type} (f : α → Layer) (rs : List α) :
    spell S (rs.flatMap f) = rs.flatMap fun r => spell S (f r) := by
  rw [spell, List.flatMap_assoc]
  rfl

/-- The stretches found in a text are recorded after those that were there. -/
theorem entries_hide (kind : Kind) (ps : List Piece) (st : Stash) :
    (st.hide kind ps).2.entries.map (fun e => e.2.2) =
      st.entries.map (fun e => e.2.2) ++ Piece.founds ps := by
  obtain ⟨added, hentries, hadded⟩ := exists_entries_hide kind ps st
  have horiginals : added.map (fun e => e.2.2) = Piece.founds ps := by
    simpa [Function.comp_def] using congrArg (List.map Prod.snd) hadded
  rw [hentries, List.map_append, horiginals]

end Stash

open Stash

namespace Layering

variable {n : Text} (L : Layering n)

/-- A part of the masked text as it was written. -/
theorem restore_spell (hclean : Clean (plain n)) {as : Layer} (h : as <:+: L.masked) :
    (hideVerbatim n).2.restore (spell n.unusedPrivate as) =
      spell n.unusedPrivate (giveBackIn (fun _ => true) L.verbatim as) := by
  have hS := not_isTokenChar_of_isPrivateUse (isPrivateUse_unusedPrivate n)
  have hback : Clean (giveBackIn (fun _ => true) L.verbatim as) := by
    obtain ⟨x, y, hxy⟩ := h
    refine hclean.of_infix ?_
    rw [← L.holds.giveBackIn, ← hxy, giveBackIn_append, giveBackIn_append]
    exact List.infix_append _ _ _
  rw [L.hideVerbatim_eq]
  exact giveBack_spell_of_clean hS hback

/-- A part of the masked layer has no amounts put aside, so its source is what was masked. -/
theorem source_of_infix_masked {as : Layer} (h : as <:+: L.masked) :
    L.source as = giveBackIn (fun _ => true) L.verbatim as := by
  have hnot : ∀ i, .token .currency i ∉ as :=
    fun i hi => L.not_mem_masked_of_kind (by decide) i (h.subset hi)
  rw [source, (L.giveBackIn_amounts_of_not_mem hnot).1]

/-- **The token of an amount comes out as the amount with its dollar escaped.** -/
theorem outcome_amount {as : List Layer} {t : Text} {bs : List Layer}
    (h : Cell.founds L.amounts = as ++ plain t :: bs) :
    L.outcome [.token .currency as.length] = plain (escapeDollars t) := by
  have hstore : L.escapedStore =
      (bs.map fun as => (Kind.currency, plain (escapeDollars (spell n.unusedPrivate as)))).reverse ++
        (.currency, plain (escapeDollars t)) ::
        (as.map fun as => (Kind.currency, plain (escapeDollars (spell n.unusedPrivate as)))).reverse := by
    rw [escapedStore, amountStore, stored, h]
    simp [Function.comp_def]
  have hlen : as.length = (as.map fun as =>
      (Kind.currency, plain (escapeDollars (spell n.unusedPrivate as)))).reverse.length := by simp
  rw [outcome, hstore, hlen, giveBackIn_entry rfl, giveBackIn_plain]

end Layering

/-- An amount with the masked text that follows it up to the next amount, and with what becomes of
that text. -/
structure Price where
  amount : Text
  before : Text
  after : Text

namespace Price

/-- The amount with a backslash put before its dollar. -/
def Escaped (amount escaped : Text) : Prop :=
  ∃ x y, amount = x ++ '$' :: y ∧ escaped = x ++ '\\' :: '$' :: y ∧ '$' ∉ x ++ y

end Price

/-- The one dollar of a text gets the one backslash. -/
theorem Stash.escapeDollars_of_split {x y : Text} (hx : '$' ∉ x) (hy : '$' ∉ y) :
    escapeDollars (x ++ '$' :: y) = x ++ '\\' :: '$' :: y := by
  have hstay : ∀ s : Text, '$' ∉ s → escapeDollars s = s := by
    intro s hs
    have hone : ∀ c ∈ s, (if c = '$' then ['\\', '$'] else [c]) = [c] :=
      fun c hc => if_neg (by rintro rfl; exact hs hc)
    rw [escapeDollars, List.flatMap_congr hone]
    simp
  have hsplit : escapeDollars (x ++ '$' :: y) =
      escapeDollars x ++ ['\\', '$'] ++ escapeDollars y := by simp [escapeDollars]
  rw [hsplit, hstay x hx, hstay y hy]
  simp

theorem Amount.IsWritten.escaped {t : Text} (h : IsWritten t) :
    Price.Escaped t (escapeDollars t) := by
  obtain ⟨x, y, rfl, hx, hy⟩ := h.exists_split
  exact ⟨x, y, rfl, escapeDollars_of_split hx hy, by simp [hx, hy]⟩

/-- The masked text of `n` is cut at its amounts. These are what is recorded of it, in order; they
part `n` as well, with what was masked restored; and `out` is parted by the same amounts, each with
its one dollar escaped, the text between them the same but for signs. -/
def AmountsEscaped (n out : Text) : Prop :=
  let masked := (hideVerbatim n).1
  let st := (hideVerbatim n).2
  ∃ (t u : Text) (ps : List Price),
    Amount.amounts masked = Piece.keep t ++
      ps.flatMap (fun p => .found p.amount :: Piece.keep p.before) ∧
    (Amount.hide masked st.emptied).2.entries.map (fun e => e.2.2) = ps.map Price.amount ∧
    n = st.restore t ++ ps.flatMap (fun p => p.amount ++ st.restore p.before) ∧
    out = u ++ ps.flatMap (fun p => escapeDollars p.amount ++ p.after) ∧
    u.rest = (st.restore t).rest ∧
    ∀ p ∈ ps, Price.Escaped p.amount (escapeDollars p.amount) ∧
      p.after.rest = (st.restore p.before).rest

namespace Layering

variable {n : Text} (L : Layering n)

/-- The text between two amounts comes out the same but for signs. -/
theorem rest_spell_outcome (hclean : Clean (plain n)) {as bs : Layer} (h : Retouched as bs)
    (has : as <:+: L.masked) :
    (spell n.unusedPrivate (L.outcome bs)).rest =
      ((hideVerbatim n).2.restore (spell n.unusedPrivate as)).rest := by
  have hS := isPrivateUse_unusedPrivate n
  rw [L.restore_spell hclean has, rest_spell hS, rest_spell hS, L.rest_outcome h.rest_eq,
    L.source_of_infix_masked has]

/-- The text of rows as they were written. -/
theorem spell_source_rows (x : Layer) (rows : List Row) :
    spell n.unusedPrivate (L.source (x ++ rows.flatMap fun r => plain r.found ++ r.before)) =
      spell n.unusedPrivate (L.source x) ++
        rows.flatMap fun r => r.found ++ spell n.unusedPrivate (L.source r.before) := by
  rw [source_append, source, source, giveBackIn_flatMap, giveBackIn_flatMap, spell_append,
    spell_flatMap]
  refine congrArg _ (List.flatMap_congr fun r _ => ?_)
  rw [← source, source_append, source_plain, spell_append, spell_plain]

/-- The text of rows as it comes out. -/
theorem spell_outcome_rows (y : Layer) {rows : List Row}
    (h : ∀ r ∈ rows, L.outcome [.token .currency r.index] = plain (escapeDollars r.found)) :
    spell n.unusedPrivate (L.outcome
        (y ++ rows.flatMap fun r => .token .currency r.index :: r.after)) =
      spell n.unusedPrivate (L.outcome y) ++
        rows.flatMap fun r => escapeDollars r.found ++ spell n.unusedPrivate (L.outcome r.after) := by
  rw [outcome_append, outcome, outcome, giveBackIn_flatMap, giveBackIn_flatMap, spell_append,
    spell_flatMap]
  refine congrArg _ (List.flatMap_congr fun r hr => ?_)
  rw [← outcome, ← List.singleton_append, outcome_append, h r hr, spell_append, spell_plain]

/-- The row of an amount has the number that its token has. -/
theorem outcome_index {rows : List Row}
    (hfounds : Cell.founds L.amounts = rows.map fun r => plain r.found)
    (hindex : rows.map Row.index = List.range' 0 rows.length) :
    ∀ r ∈ rows, L.outcome [.token .currency r.index] = plain (escapeDollars r.found) := by
  intro r hr
  obtain ⟨rs, rs', rfl⟩ := List.append_of_mem hr
  have hnumber : r.index = (rs.map fun r => plain r.found).length := by
    have hget := congrArg (·[rs.length]?) hindex
    simpa using hget
  have hsplit : Cell.founds L.amounts = (rs.map fun r => plain r.found) ++
      plain r.found :: rs'.map fun r => plain r.found := by simp [hfounds]
  rw [hnumber]
  exact L.outcome_amount hsplit

include L in
theorem amountsEscaped (hclean : Clean (plain n)) : AmountsEscaped n (settleDollars n) := by
  have hplain : ∀ as ∈ Cell.founds L.amounts, ∃ t, as = plain t := by
    intro as has
    obtain ⟨t, rfl, -⟩ := L.written as has
    exact ⟨t, rfl⟩
  obtain ⟨x, y, rows, hlayer, hpieces, hback, hxy, hrows, hfounds, hindex⟩ :=
    exists_rows (S := n.unusedPrivate) 0 (w := []) hplain
      (L.retouched_dollars.trans L.retouched_mathBack)
  rw [L.layer_amounts] at hlayer
  have hx : x <:+: L.masked := hlayer ▸ (List.prefix_append _ _).isInfix
  have hpart : ∀ r ∈ rows, r.before <:+: L.masked := by
    intro r hr
    obtain ⟨rs, rs', rfl⟩ := List.append_of_mem hr
    rw [hlayer]
    exact ⟨x ++ rs.flatMap (fun r => plain r.found ++ r.before) ++ plain r.found,
      rs'.flatMap (fun r => plain r.found ++ r.before), by simp⟩
  have hrestore : ∀ {as : Layer}, as <:+: L.masked → spell n.unusedPrivate (L.source as) =
      (hideVerbatim n).2.restore (spell n.unusedPrivate as) := by
    intro as has
    rw [L.restore_spell hclean has, L.source_of_infix_masked has]
  have hprices : ∀ r ∈ rows, Price.Escaped r.found (escapeDollars r.found) := by
    intro r hr
    obtain ⟨t, ht, hwritten⟩ :=
      L.written (plain r.found) (hfounds ▸ List.mem_map_of_mem (f := fun r => plain r.found) hr)
    rw [plain_inj ht]
    exact hwritten.escaped
  refine ⟨spell n.unusedPrivate x, spell n.unusedPrivate (L.outcome y), rows.map fun r =>
    ⟨r.found, spell n.unusedPrivate r.before, spell n.unusedPrivate (L.outcome r.after)⟩,
    ?_, ?_, ?_, ?_, L.rest_spell_outcome hclean hxy hx, ?_⟩
  · show Amount.amounts (hideVerbatim n).1 = _
    rw [L.hideVerbatim_eq, ← L.pieces_amounts, hpieces, List.flatMap_map]
  · show (Amount.hide (hideVerbatim n).1 (hideVerbatim n).2.emptied).2.entries.map _ = _
    rw [L.hideVerbatim_eq, Amount.hide, entries_hide, ← L.pieces_amounts,
      Cell.founds_pieces, hfounds]
    simp [Stash.emptied, Stash.entries, Stash.entriesOf]
  · have hsource : n = spell n.unusedPrivate (L.source L.masked) := by
      rw [L.source_of_infix_masked (List.infix_refl _), L.holds.giveBackIn, spell_plain]
    have hrow : ∀ r ∈ rows, r.found ++ spell n.unusedPrivate (L.source r.before) =
        r.found ++ (hideVerbatim n).2.restore (spell n.unusedPrivate r.before) :=
      fun r hr => congrArg _ (hrestore (hpart r hr))
    rw [List.flatMap_map, ← List.flatMap_congr hrow, ← hrestore hx, ← L.spell_source_rows, ← hlayer]
    exact hsource
  · have hfinal : L.final = L.outcome L.mathBack := rfl
    rw [L.settleDollars_eq hclean, List.flatMap_map, hfinal, hback]
    exact L.spell_outcome_rows y (L.outcome_index hfounds hindex)
  · refine List.forall_mem_map.2 fun r hr => ⟨hprices r hr, ?_⟩
    exact L.rest_spell_outcome hclean (hrows r hr) (hpart r hr)

end Layering

/-- **Preparing escapes every amount**, in its place and once, wherever it stands, and changes nothing
between them but signs. -/
theorem prepare_escapes_amounts {c : Text} (hc : c ≠ [])
    (hbody : ∀ kind i, ¬ tokenBody kind i <:+: Text.unifyLineEnds c) :
    prepare c = Text.trimEnd (settleDollars (Text.unifyLineEnds c)) ++ ['\n'] ∧
      AmountsEscaped (Text.unifyLineEnds c) (settleDollars (Text.unifyLineEnds c)) := by
  obtain ⟨L⟩ := exists_layering (Text.unifyLineEnds c)
  refine ⟨?_, L.amountsEscaped (clean_plain hbody)⟩
  rw [prepare, if_neg (by simpa using hc)]

theorem prepare_escapes_amounts_in_math :
    ("\\[a $5\\] $x $7 y$ \\(-$8.50\\)".toList ≠ [] ∧
      ∀ kind i, ¬ tokenBody kind i <:+:
        Text.unifyLineEnds "\\[a $5\\] $x $7 y$ \\(-$8.50\\)".toList) ∧
    prepare "\\[a $5\\] $x $7 y$ \\(-$8.50\\)".toList =
        Text.trimEnd (settleDollars
          (Text.unifyLineEnds "\\[a $5\\] $x $7 y$ \\(-$8.50\\)".toList)) ++ ['\n'] ∧
      AmountsEscaped (Text.unifyLineEnds "\\[a $5\\] $x $7 y$ \\(-$8.50\\)".toList)
        (settleDollars (Text.unifyLineEnds "\\[a $5\\] $x $7 y$ \\(-$8.50\\)".toList)) :=
  ⟨⟨by decide, not_tokenBody_infix_of_not_mem (by decide)⟩,
    prepare_escapes_amounts (by decide) (not_tokenBody_infix_of_not_mem (by decide))⟩

end MarkdownPrep
