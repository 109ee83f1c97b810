import MarkdownPrep.Proofs.Dollar.Pair
import MarkdownPrep.Proofs.Stash.Cells
import MarkdownPrep.Verbatim

/-!
# The spans left when spans are put aside

Putting a span aside takes two dollars out of a text. The other dollars pair as before: next to a
span stands no dollar, and a dollar before it on its line that is in no span is kept from pairing by
a doubled dollar that stands before the span as well (`interior?_hide`). So the text and what is
left of it are read in step (`founds_cutAfter_hide`), and what is found in the text that is left
are the spans that were not put aside (`hideInlineMath_spec`).
-/

namespace MarkdownPrep.Dollar

open Stash

section
variable {kind : Kind} {p : Text → Bool} {st : Stash} {x s : Text} {b : Char}

/-- A place where no span begins looks the same when spans after it are put aside. -/
theorem head?_hide (h : recogniser x.getLast? s = none) (st : Stash) :
    (st.hide kind (Piece.retain p (Text.cutAfter recogniser x s))).1.head? = s.head? := by
  cases s with
  | nil => rfl
  | cons c s =>
    rw [Text.cutAfter_of_none h]
    rfl

theorem recogniser_eq_none_of_head? (h : s.head? ≠ some '$') (before : Option Char) :
    recogniser before s = none := by
  cases s with
  | nil => rfl
  | cons c s => exact recogniser_of_ne fun hc => h (congrArg some hc)

/-- After a dollar no span begins. -/
theorem recogniser_dollar_eq_none (s : Text) : recogniser (some '$') s = none := by
  by_cases h : s.head? = some '$'
  · obtain ⟨s, rfl⟩ := List.head?_eq_some_iff.1 h
    exact recogniser_dollar_eq_none_iff.2 (.inr (.inl rfl))
  · exact recogniser_eq_none_of_head? h _

/-- **A dollar without a partner has none when spans after it are put aside**: there is no span
before the place where the search for a partner ends. -/
theorem interior?_hide : ∀ x s : Text, ∀ b st, x.getLast? = some b → interior? b s = none →
    interior? b (Stash.hide kind (Piece.retain p (Text.cutAfter recogniser x s)) st).1 = none := by
  refine Text.cut_induction honest_recogniser (motive := fun x s ps => ∀ b st,
    x.getLast? = some b → interior? b s = none →
      interior? b (Stash.hide kind (Piece.retain p ps) st).1 = none) ?_ ?_ ?_
  · intro x b st _ _
    rfl
  · intro x c s _ ih b st hb h
    have hlast : (x ++ [c]).getLast? = some c := List.getLast?_concat
    show interior? b (c :: (Stash.hide kind (Piece.retain p
      (Text.cutAfter recogniser (x ++ [c]) s)) st).1) = none
    rw [interior?] at h ⊢
    split at h
    · next hline => rw [if_pos hline]
    · next hline =>
      rw [if_neg hline]
      split at h
      · next hcloses =>
        -- the dollar that ends the search is doubled, and no span begins with the second one
        rw [if_pos hcloses]
        have hdollar : c = '$' := by simp at hcloses; exact hcloses.1
        rw [hdollar] at hlast ⊢
        have hnone : recogniser (x ++ ['$']).getLast? s = none := by
          rw [hlast]
          exact recogniser_dollar_eq_none s
        rw [head?_hide hnone]
        exact h
      · next hopen =>
        rw [if_neg hopen, Option.map_eq_none_iff]
        rw [Option.map_eq_none_iff] at h
        exact ih c st hlast h
  · intro x u v ps hps hu _ b st hb h
    -- a span would begin with an unescaped dollar, and that would end the search
    obtain ⟨body, y, hsplit, hpairs, -⟩ := recogniser_eq_some_iff.1 hps
    have hspan : span body ++ y = '$' :: (body ++ '$' :: y) := by simp [span]
    have hescape : b ≠ '\\' := fun hb' => hpairs.unescaped (hb' ▸ hb)
    rw [hsplit, hspan, interior?, if_neg (by decide), if_pos (by simp [hescape]),
      if_neg hpairs.head?_ne] at h
    cases h

/-- A place where no span begins is one where none begins when spans after it are put aside. -/
theorem recogniser_hide {c : Char} (h : recogniser x.getLast? (c :: s) = none) (st : Stash) :
    recogniser x.getLast? (c :: (Stash.hide kind (Piece.retain p
      (Text.cutAfter recogniser (x ++ [c]) s)) st).1) = none := by
  have hlast : (x ++ [c]).getLast? = some c := List.getLast?_concat
  by_cases hc : c = '$'
  · subst hc
    have hnone : recogniser (x ++ ['$']).getLast? s = none := by
      rw [hlast]
      exact recogniser_dollar_eq_none s
    rw [recogniser_dollar_eq_none_iff] at h ⊢
    rw [head?_hide hnone]
    exact h.imp_right (.imp_right (.imp_right (interior?_hide _ s _ st hlast)))
  · exact recogniser_of_ne hc

theorem dollar_not_mem_token {S : Char} (hS : S ≠ '$') (kind : Kind) (i : Nat) :
    '$' ∉ token S kind i := fun h =>
  (isMark_of_mem_token h).elim (fun heq => hS heq.symm) (by decide)

/-- **Of a text whose spans are put aside the other spans are left**, and no further ones are found:
`x'` stands for what was before the text, and ends as it did unless no dollar follows. -/
theorem founds_cutAfter_hide : ∀ x s : Text, ∀ x' st, st.sentinel ≠ '$' →
    (x'.getLast? = x.getLast? ∨ s.head? ≠ some '$') →
    Piece.founds (Text.cutAfter recogniser x'
      (Stash.hide kind (Piece.retain p (Text.cutAfter recogniser x s)) st).1) =
      (Piece.founds (Text.cutAfter recogniser x s)).filter (!p ·) := by
  refine Text.cut_induction honest_recogniser (motive := fun x s ps => ∀ x' st,
    st.sentinel ≠ '$' → (x'.getLast? = x.getLast? ∨ s.head? ≠ some '$') →
      Piece.founds (Text.cutAfter recogniser x' (Stash.hide kind (Piece.retain p ps) st).1) =
        (Piece.founds ps).filter (!p ·)) ?_ ?_ ?_
  · intro x x' st _ _
    rfl
  · intro x c s hnone ih x' st hS hx'
    show Piece.founds (Text.cutAfter recogniser x' (c :: (Stash.hide kind (Piece.retain p
      (Text.cutAfter recogniser (x ++ [c]) s)) st).1)) = _
    have hnone' : recogniser x'.getLast? (c :: (Stash.hide kind (Piece.retain p
        (Text.cutAfter recogniser (x ++ [c]) s)) st).1) = none := by
      rcases hx' with hx' | hc
      · rw [hx']
        exact recogniser_hide hnone st
      · exact recogniser_of_ne fun heq => hc (congrArg some heq)
    rw [Text.cutAfter_of_none hnone']
    exact ih (x' ++ [c]) st hS (.inl (by simp))
  · intro x u v ps hps hu ih x' st hS hx'
    obtain ⟨body, y, hsplit, hpairs, rfl⟩ := recogniser_eq_some_iff.1 hps
    obtain rfl : span body = u := by simpa [Piece.source] using hu
    obtain rfl := List.append_cancel_left hsplit
    have hnone : recogniser (x ++ span body).getLast? v = none :=
      recogniser_eq_none_of_head? hpairs.ends _
    rw [List.singleton_append, Piece.founds_found_cons]
    by_cases hp : p (span body)
    · -- the token has no dollar, and no dollar follows the span
      rw [Piece.retain_found_cons hp, List.filter_cons_of_neg (by simp [hp])]
      show Piece.founds (Text.cutAfter recogniser x' (token st.sentinel kind st.size ++
        (Stash.hide kind (Piece.retain p (Text.cutAfter recogniser (x ++ span body) v))
          (st.put kind (span body)).2).1)) = _
      rw [Text.cutAfter_append_of_none fun z c w htoken => recogniser_of_ne ?_, Piece.founds_append,
        Piece.founds_keep, List.nil_append]
      · exact ih _ _ hS (.inr hpairs.ends)
      · rintro rfl
        exact dollar_not_mem_token hS kind st.size (htoken ▸ by simp)
    · -- the span is found again, as the dollar after it is none that a span brought there
      have hx' : x'.getLast? = x.getLast? := hx'.resolve_right fun h => h rfl
      rw [Piece.retain_found_cons_of_not (by simpa using hp), hide_keep_append,
        List.filter_cons_of_pos (by simp [hp])]
      have hends : (Stash.hide kind (Piece.retain p
          (Text.cutAfter recogniser (x ++ span body) v)) st).1.head? = v.head? :=
        head?_hide hnone st
      have hpairs' : Pairs x' body (Stash.hide kind (Piece.retain p
          (Text.cutAfter recogniser (x ++ span body) v)) st).1 :=
        { hpairs with
          unescaped := hx' ▸ hpairs.unescaped
          undoubled := hx' ▸ hpairs.undoubled
          ends := hends ▸ hpairs.ends }
      rw [Text.cutAfter_append_of_found honest_recogniser
        (recogniser_eq_some_iff.2 ⟨body, _, rfl, hpairs', rfl⟩), Piece.founds_found_cons]
      exact congrArg (span body :: ·)
        (ih _ st hS (.inl (by rw [getLast?_append_span, getLast?_append_span])))

end

/-- **Inline math is put aside whole, and no span is made by that**: the spans of the text that is
left are those of bare amounts, and the entries that are added are the others, in order. -/
theorem hideInlineMath_spec {st : Stash} (hS : st.sentinel ≠ '$') (s : Text) :
    Piece.founds (spans (hideInlineMath s st).1) =
        (Piece.founds (spans s)).filter (fun t => Amount.isBare (Text.trim (interior t))) ∧
      ∃ added, (hideInlineMath s st).2.entries = st.entries ++ added ∧
        added.map Prod.snd = ((Piece.founds (spans s)).filter
          (fun t => !Amount.isBare (Text.trim (interior t)))).map fun t => (.inlineMath, t) := by
  constructor
  · have hfounds := @founds_cutAfter_hide .inlineMath
      (fun t => !Amount.isBare (Text.trim (interior t))) [] s [] st hS (.inl rfl)
    simp only [Bool.not_not] at hfounds
    exact hfounds
  · obtain ⟨added, hentries, hadded⟩ := exists_entries_hide .inlineMath (Verbatim.inlineMath s) st
    refine ⟨added, hentries, ?_⟩
    rw [hadded, Verbatim.inlineMath, Piece.founds_retain]

theorem hideInlineMath_spec_of_amount :
    (⟨'\uE000', []⟩ : Stash).sentinel ≠ '$' ∧
      Piece.founds (spans (hideInlineMath "\\$ $x$ $5$ $$ $y$ $".toList ⟨'\uE000', []⟩).1) =
        (Piece.founds (spans "\\$ $x$ $5$ $$ $y$ $".toList)).filter
          (fun t => Amount.isBare (Text.trim (interior t))) ∧
      ∃ added, (hideInlineMath "\\$ $x$ $5$ $$ $y$ $".toList ⟨'\uE000', []⟩).2.entries =
          (⟨'\uE000', []⟩ : Stash).entries ++ added ∧
        added.map Prod.snd = ((Piece.founds (spans "\\$ $x$ $5$ $$ $y$ $".toList)).filter
          (fun t => !Amount.isBare (Text.trim (interior t)))).map fun t => (.inlineMath, t) :=
  ⟨by decide, hideInlineMath_spec (by decide) _⟩

example : Piece.founds (spans (hideInlineMath "\\$ $x$ $5$ $$ $y$ $".toList ⟨'\uE000', []⟩).1) =
    ["$5$".toList] := by decide

end MarkdownPrep.Dollar
