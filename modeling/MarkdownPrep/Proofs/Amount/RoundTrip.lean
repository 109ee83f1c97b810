import Mathlib.Data.List.Chain
import MarkdownPrep.Proofs.Amount.Longest
import MarkdownPrep.Proofs.Offsets.Extent
import MarkdownPrep.Proofs.Prepare.Amounts
import MarkdownPrep.Proofs.Stash.GiveBack

/-!
# Giving amounts back

Amounts are put aside from a text without tokens, so giving them back brings the text back unless
what stands between two tokens reads as a third one. It never does: no underscore follows an amount
(`placed_ends`), so none follows a token (`Stash.Apart`), and the body of a token begins with one.
Giving an amount back keeps this, as an amount begins with no underscore either.
-/

namespace MarkdownPrep

open Stash Text

namespace Stash

/-- No underscore stands after a token. -/
def Apart (as : Layer) : Prop :=
  as.IsChain fun a b => (∃ kind i, a = .token kind i) → b ≠ .char '_'

variable {as : Layer} {kind : Kind} {i : Nat} {t : Text}

theorem apart_plain (s : Text) : Apart (plain s) := by
  induction s with
  | nil => exact .nil
  | cons c s ih => exact List.isChain_cons.2 ⟨nofun, ih⟩

/-- Where no underscore stands after a token, nothing between tokens reads as one. -/
theorem Apart.not_spoofs (h : Apart as) : ¬ Spoofs kind i as := by
  rintro ⟨kind₁, i₁, kind₂, i₂, -, hinfix⟩
  obtain ⟨body, hbody⟩ := List.head?_eq_some_iff.1 (head?_tokenBody kind i)
  rw [hbody] at hinfix
  have hchain := List.IsChain.infix h hinfix
  exact (List.isChain_cons.1 hchain).1 _ rfl ⟨kind₁, i₁, rfl⟩ rfl

/-- An exchanged layer begins with what it began with or with what came in. -/
theorem head?_exchange {c : Char} {a : Atom}
    (ha : a ∈ (exchange kind i (plain (c :: t)) as).head?) : a = .char c ∨ a ∈ as.head? := by
  cases as with
  | nil => cases ha
  | cons b as =>
    rw [exchange_cons] at ha
    split at ha
    · exact .inl (Option.some.inj ha).symm
    · exact .inr ha

theorem Apart.exchange (h : Apart as) (ht : ∃ c ∈ t.head?, c ≠ '_') :
    Apart (exchange kind i (plain t) as) := by
  obtain ⟨c, hc, hne⟩ := ht
  obtain ⟨t, rfl⟩ := List.head?_eq_some_iff.1 hc
  induction as with
  | nil => exact .nil
  | cons a as ih =>
    obtain ⟨hhead, htail⟩ := List.isChain_cons.1 h
    rw [exchange_cons]
    refine List.isChain_append.2 ⟨?_, ih htail, fun x hx y hy htoken => ?_⟩
    · split
      · exact apart_plain (c :: t)
      · exact .singleton a
    · split at hx
      · -- the last character that came in is no token
        obtain ⟨kind', i', rfl⟩ := htoken
        exact absurd (List.mem_of_getLast? hx) (token_not_mem_plain _ _ _)
      · obtain rfl : a = x := Option.some.inj hx
        rcases head?_exchange hy with rfl | hy
        · exact fun heq => hne (Atom.char.inj heq)
        · exact hhead y hy htoken

/-- Nothing spoofs a token when stretches that begin with no underscore are given back. -/
theorem Apart.unspoofed {p : Kind → Bool} {es : Store} (h : Apart as)
    (hes : ∀ e ∈ es, ∃ t, e.2 = plain t ∧ ∃ c ∈ t.head?, c ≠ '_') : Unspoofed p es as := by
  induction es generalizing as with
  | nil => trivial
  | cons e es ih =>
    obtain ⟨kind, new⟩ := e
    rw [List.forall_mem_cons] at hes
    obtain ⟨⟨t, rfl, ht⟩, hes⟩ := hes
    refine ⟨fun _ => h.not_spoofs, ?_⟩
    split
    · exact ih (h.exchange ht) hes
    · exact ih h hes

/-- A pass leaves no underscore after its tokens if it finds nothing that one follows. -/
theorem apart_hidden {S : Char} {cs : List Cell} {x s : Text} (hlayer : Cell.layer cs = plain s)
    (hends : Piece.Placed (fun _ _ u => startsWithName u = false) x (Cell.pieces S cs)) (n : Nat) :
    Apart (Cell.hidden kind n cs) := by
  induction cs generalizing n x s with
  | nil => exact .nil
  | cons c cs ih =>
    cases c with
    | kept a =>
      rw [Cell.pieces_kept, Piece.placed_append] at hends
      obtain ⟨c, s, rfl, rfl, hs⟩ := List.map_eq_cons_iff.1 hlayer.symm
      exact List.isChain_cons.2 ⟨nofun, ih hs.symm hends.2 n⟩
    | found as =>
      rw [Cell.pieces_found, Piece.placed_found_cons, Cell.sources_pieces] at hends
      obtain ⟨-, s, -, -, hs⟩ := List.map_eq_append_iff.1 hlayer.symm
      refine List.isChain_cons.2 ⟨fun b hb _ hbar => ?_, ih hs.symm hends.2 (n + 1)⟩
      subst hbar
      cases cs with
      | nil => cases hb
      | cons c cs =>
        cases c with
        | kept a =>
          obtain rfl : a = .char '_' := Option.some.inj hb
          have hname : isNameChar '_' = false := hends.1
          exact absurd hname (by decide)
        | found => cases hb

end Stash

namespace Amount

/-- **No letter, digit or underscore follows an amount that is found in a text.** -/
theorem placed_ends (s : Text) :
    Piece.Placed (fun _ _ u => startsWithName u = false) [] (amounts s) :=
  placed_amounts_of (fun _ _ _ h => (afterAmount?_eq_some_iff.1 h).1.2) s

/-- The amounts put aside from a text without the sentinel come back where they were. -/
theorem restore_hide {S : Char} (hS : isPrivateUse S) {s : Text} (hs : S ∉ s) :
    (hide s ⟨S, []⟩).2.restore (hide s ⟨S, []⟩).1 = s := by
  obtain ⟨cs, hlayer, hpieces, hfounds⟩ := exists_amounts hS (plain s)
  rw [spell_plain] at hpieces
  have hends : Apart (Cell.hidden .currency 0 cs) :=
    apart_hidden hlayer (hpieces ▸ placed_ends s) 0
  have hstore : ∀ e ∈ stored .currency cs [], ∃ t, e.2 = plain t ∧ IsWritten t := by
    intro e he
    obtain ⟨as, has, rfl⟩ | he := mem_stored.1 he
    · exact hfounds as has
    · cases he
  have hhide : hide s ⟨S, []⟩ =
      (spell S (Cell.hidden .currency 0 cs), ⟨S, spellAll S (stored .currency cs [])⟩) := by
    rw [hide, ← hpieces]
    exact hide_pieces .currency cs []
  have hsound : Sound S (Cell.hidden .currency 0 cs) :=
    Cell.sound_hidden (hlayer ▸ sound_plain.2 hs)
  have hsounds : ∀ e ∈ stored .currency cs [], Sound S e.2 := by
    intro e he
    obtain ⟨t, ht, hwritten⟩ := hstore e he
    rw [ht, sound_plain]
    exact fun hm => not_isPrivateUse_of_isAmountChar (hwritten.all S hm) hS
  have hunspoofed := hends.unspoofed (p := fun _ => true) fun e he => by
    obtain ⟨t, ht, hwritten⟩ := hstore e he
    obtain ⟨c, hc, hsign⟩ := hwritten.head
    exact ⟨t, ht, c, hc, by rcases hsign with rfl | rfl <;> decide⟩
  have hback := giveBack_spell (not_isTokenChar_of_isPrivateUse hS) hsound hsounds hunspoofed
  have hplain : giveBackIn (fun _ => true) (stored .currency cs []) (Cell.hidden .currency 0 cs) =
      plain s := by
    rw [← hlayer]
    exact giveBackIn_hidden_of_not_mem rfl (fun i => hlayer ▸ token_not_mem_plain _ i s) []
  rw [hplain, spell_plain] at hback
  rw [hhide]
  exact hback

/-- **Putting amounts aside loses nothing**: given back, they make up the text, and what is recorded
of them are stretches of the text, each after the one before. -/
theorem hide_restores {s : Text} (h : ∃ c, isPrivateUse c ∧ c ∉ s) :
    (hide s (.forText s)).2.restore (hide s (.forText s)).1 = s ∧
      ∃ spans : List Span,
        (hide s (.forText s)).2.entries.map (fun e => e.2.2) = spans.map Span.text ∧
        spans.Pairwise (fun a b => a.stop ≤ b.start) ∧
        ∀ a ∈ spans, a.start < a.stop ∧ slice? a.start a.stop s = some a.text := by
  refine ⟨restore_hide (isPrivateUse_unusedPrivate s) (unusedPrivate_not_mem h),
    Piece.spans (amounts s), ?_, Piece.pairwise_spansFrom 0 _, fun a ha => ?_⟩
  · rw [hide, entries_hide, Piece.spans, Piece.map_text_spansFrom]
    rfl
  · obtain ⟨hfound, x, y, hsplit, hstart, hstop⟩ := Piece.exists_of_mem_spansFrom (u := []) ha
    have hne : a.text ≠ [] :=
      List.ne_nil_of_mem (Piece.forall_founds_of_placed (placed_amounts s) _ hfound).dollar
    have hpos := Nat.pos_of_ne_zero (mt utf8Size_eq_zero_iff.1 hne)
    rw [sources_amounts, List.nil_append] at hsplit
    refine ⟨?_, slice?_eq_some_iff.2 ⟨x, y, by rw [hsplit, List.append_assoc], hstart, hstop⟩⟩
    rw [hstart, hstop, utf8Size_append]
    omega

/-- What reads as a token here keeps the amount before it from being one. -/
theorem hide_restores_of_range :
    (∃ c, isPrivateUse c ∧ c ∉ "$5-$6$7__CURRENCY_1__$8".toList) ∧
      (hide "$5-$6$7__CURRENCY_1__$8".toList (.forText "$5-$6$7__CURRENCY_1__$8".toList)).2.restore
          (hide "$5-$6$7__CURRENCY_1__$8".toList (.forText "$5-$6$7__CURRENCY_1__$8".toList)).1 =
        "$5-$6$7__CURRENCY_1__$8".toList ∧
      ∃ spans : List Span,
        (hide "$5-$6$7__CURRENCY_1__$8".toList
            (.forText "$5-$6$7__CURRENCY_1__$8".toList)).2.entries.map (fun e => e.2.2) =
          spans.map Span.text ∧
        spans.Pairwise (fun a b => a.stop ≤ b.start) ∧
        ∀ a ∈ spans, a.start < a.stop ∧
          slice? a.start a.stop "$5-$6$7__CURRENCY_1__$8".toList = some a.text :=
  ⟨⟨'\uE000', by decide, by decide⟩, hide_restores ⟨'\uE000', by decide, by decide⟩⟩

end Amount

end MarkdownPrep
