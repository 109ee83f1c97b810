import MarkdownPrep.Proofs.Dollar.Pair
import MarkdownPrep.Verbatim

/-!
# Dollars that delimit math

Where nothing reaches over a place (`Text.Clear`), a stretch without dollars that stands there in
double dollars is found as display math (`Verbatim.displayMath_eq`). One in single dollars is passed
over by that (`Verbatim.displayMath_eq_of_span`) and found as inline math
(`Verbatim.inlineMath_eq`) if it is no bare amount, fits on a line, and neither an escape nor a
further dollar gets in the way of its dollars.
-/

namespace MarkdownPrep

namespace Dollar

theorem recogniser_span {before : Option Char} {body v : Text} (hbefore : before ≠ some '\\')
    (hbefore' : before ≠ some '$') (hne : body ≠ []) (hdollar : '$' ∉ body) (hline : '\n' ∉ body)
    (hlast : body.getLast? ≠ some '\\') (hv : v.head? ≠ some '$') :
    recogniser before (span body ++ v) = some [.found (span body)] := by
  have hfirst : (body ++ ['$']).head? ≠ some '$' := by
    obtain ⟨c, body, rfl⟩ := List.exists_cons_of_ne_nil hne
    rintro h
    cases h
    exact hdollar List.mem_cons_self
  have hbetween : ∀ u w, body = u ++ '$' :: w → u.getLast? = some '\\' := by
    rintro u w rfl
    exact absurd (by simp) hdollar
  obtain ⟨x, rfl⟩ : ∃ x : Text, before = x.getLast? := ⟨before.toList, by cases before <;> rfl⟩
  exact recogniser_eq_some_iff.2
    ⟨body, v, rfl, ⟨hbefore, hbefore', hfirst, hline, hbetween, hlast, hv⟩, rfl⟩

end Dollar

namespace Verbatim

/-- The recogniser of display math. -/
abbrev displayRecogniser : Recogniser := .enclosed "$$".toList "$$".toList

theorem honest_displayRecogniser : displayRecogniser.Honest :=
  Recogniser.honest_enclosed (by decide) _

section
variable {p body q : Text}

/-- Display math does not begin where the text does not go on with two dollars. -/
theorem displayRecogniser_eq_none {before : Option Char} {c : Char} {s : Text}
    (h : c ≠ '$' ∨ s.head? ≠ some '$') : displayRecogniser before (c :: s) = none := by
  rw [displayRecogniser, Recogniser.enclosed, if_neg]
  intro hp
  obtain ⟨t, ht⟩ := List.isPrefixOf_iff_prefix.1 hp
  obtain ⟨rfl, rfl⟩ := List.cons.inj ht
  exact h.elim (absurd rfl) (absurd rfl)

/-- **A stretch in double dollars on lines of its own is display math** where nothing reaches over
the place. -/
theorem displayMath_eq (hdollar : '$' ∉ body)
    (h : Text.Clear displayRecogniser p (p ++ ("\n$$".toList ++ body ++ "$$\n".toList ++ q))) :
    ∃ ps qs, displayMath (p ++ ("\n$$".toList ++ body ++ "$$\n".toList ++ q)) =
      ps ++ .kept '\n' :: .found ("$$".toList ++ body ++ "$$".toList) :: qs ∧
      Piece.sources ps = p := by
  have hsplit : "\n$$".toList ++ body ++ "$$\n".toList ++ q =
      '\n' :: ("$$".toList ++ body ++ "$$".toList ++ '\n' :: q) := by simp
  have hfound := Text.cutAfter_append_of_found honest_displayRecogniser (x := p ++ ['\n'])
    (Text.enclosed_append hdollar _ "$$".toList ['$'] ('\n' :: q))
  have hnone : displayRecogniser p.getLast?
      ('\n' :: ("$$".toList ++ body ++ "$$".toList ++ '\n' :: q)) = none :=
    displayRecogniser_eq_none (.inl (by decide))
  obtain ⟨ps, hcut, hps⟩ := h.exists_cut_append honest_displayRecogniser
    (Recogniser.single_enclosed _ _)
  rw [displayMath, hcut, hsplit, Text.cutAfter_of_none hnone]
  exact ⟨ps, _, congrArg (fun qs => ps ++ .kept '\n' :: qs) hfound, hps⟩

/-- **A stretch in single dollars is no display math** where nothing reaches over the place. -/
theorem displayMath_eq_of_span (hne : body ≠ []) (hdollar : '$' ∉ body) (hq : q.head? ≠ some '$')
    {ps qs : List Piece} (h : displayMath (p ++ (Dollar.span body ++ q)) = ps ++ qs)
    (hps : Piece.sources ps = p) : qs = Piece.keep (Dollar.span body) ++
      Text.cutAfter displayRecogniser (p ++ Dollar.span body) q := by
  have hqs := Text.cutAfter_append honest_displayRecogniser (Recogniser.single_enclosed _ _)
    (y := []) h hps
  rw [hqs, List.nil_append, Text.cutAfter_append_of_none]
  intro y c w hsplit
  refine displayRecogniser_eq_none ?_
  by_cases hc : c = '$'
  · right
    subst hc
    -- the dollar is the first one or the last one
    cases y with
    | nil =>
      obtain rfl := (List.cons.inj hsplit).2
      obtain ⟨d, body, rfl⟩ := List.exists_cons_of_ne_nil hne
      rintro hd
      cases hd
      exact hdollar List.mem_cons_self
    | cons d y =>
      have hbody : body ++ ['$'] = y ++ '$' :: w := (List.cons.inj hsplit).2
      rcases List.append_eq_append_iff.1 hbody with ⟨z, rfl, hz⟩ | ⟨z, rfl, hz⟩
      · cases z with
        | nil =>
          obtain rfl := (List.cons.inj hz).2
          exact hq
        | cons e z => simp at hz
      · cases z with
        | nil =>
          obtain rfl := (List.cons.inj hz).2
          exact hq
        | cons e z =>
          obtain ⟨rfl, -⟩ := List.cons.inj hz
          exact absurd (by simp) hdollar
  · exact .inl hc

/-- **A block that reaches over the place of a stretch in single dollars** holds the stretch. -/
theorem exists_block_over_span (hdollar : '$' ∉ body) (hp : p.getLast? ≠ some '$')
    (h : ¬ Text.Clear displayRecogniser p (p ++ (Dollar.span body ++ q))) :
    ∃ ps t t' qs block, displayMath (p ++ (Dollar.span body ++ q)) =
        ps ++ .found ("$$".toList ++ block ++ "$$".toList) :: qs ∧
      "$$".toList ++ block ++ "$$".toList = t ++ (Dollar.span body ++ t') ∧
      p = Piece.sources ps ++ t := by
  obtain ⟨ps, t, w, qs, hcut, rfl, hw, hwne⟩ :=
    Text.exists_found_of_not_clear honest_displayRecogniser h
  obtain ⟨block, hblock⟩ := Text.placed_enclosed (by decide) _ _ ps (t ++ w) qs hcut
  rw [displayMath, hcut]
  rcases List.append_eq_append_iff.1 hw with ⟨t', rfl, rfl⟩ | ⟨z, hz, -⟩
  · exact ⟨ps, t, t', qs, block, by rw [hblock], hblock.symm, rfl⟩
  rcases z.eq_nil_or_concat with rfl | ⟨z, d, rfl⟩
  · rw [List.append_nil] at hz
    exact ⟨ps, t, [], qs, block, by rw [hblock], by rw [List.append_nil, hz, hblock], rfl⟩
  -- the block would end before the last dollar, after no dollar
  rw [List.concat_eq_append, ← List.append_assoc] at hz
  obtain ⟨hz, -⟩ := List.append_inj' hz rfl
  obtain ⟨c, w, rfl⟩ := List.exists_cons_of_ne_nil hwne
  obtain ⟨rfl, rfl⟩ := List.cons.inj hz
  rcases w.eq_nil_or_concat with rfl | ⟨w, e, rfl⟩
  · obtain ⟨rfl, -⟩ := List.append_inj' (hblock.trans (List.append_assoc _ ['$'] ['$']).symm) rfl
    exact absurd (by rw [← List.append_assoc]; exact List.getLast?_concat) hp
  · have hlast : t ++ '$' :: w ++ [e] = "$$".toList ++ block ++ ['$'] ++ ['$'] := by
      simpa using hblock
    obtain rfl : e = '$' := by simpa using (List.append_inj' hlast rfl).2
    exact absurd (by simp) hdollar

/-- **A stretch in single dollars is inline math** where nothing reaches over the place, unless it
is a bare amount. -/
theorem inlineMath_eq (hne : body ≠ []) (hdollar : '$' ∉ body) (hline : '\n' ∉ body)
    (hlast : body.getLast? ≠ some '\\') (hbare : ¬ Amount.isBare (Text.trim body))
    (hp : p.getLast? ≠ some '\\') (hp' : p.getLast? ≠ some '$') (hq : q.head? ≠ some '$')
    (h : Text.Clear Dollar.recogniser p (p ++ (Dollar.span body ++ q))) :
    ∃ ps qs, inlineMath (p ++ (Dollar.span body ++ q)) = ps ++ .found (Dollar.span body) :: qs ∧
      Piece.sources ps = p := by
  have hcut := Text.cutAfter_append_of_found Dollar.honest_recogniser
    (Dollar.recogniser_span hp hp' hne hdollar hline hlast hq)
  obtain ⟨ps, hps, rfl⟩ := h.exists_cut_append Dollar.honest_recogniser Dollar.single_recogniser
  rw [inlineMath, Dollar.spans, hps, hcut, Piece.retain_append,
    Piece.retain_found_cons (by simpa using hbare)]
  exact ⟨_, _, rfl, Piece.sources_retain _ ps⟩

end

end Verbatim

end MarkdownPrep
