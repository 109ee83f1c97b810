import MarkdownPrep.Proofs.Offsets.Wrap
import MarkdownPrep.Proofs.Wrap.Pairing

/-!
# The regions that a pass wraps

One pass puts dollars around stretches of the text and leaves the rest as it is. A stretch that it
wraps is a `Region`: it stands between breaks, and something in it is a sign of math or chemistry
(`HasSignal`). It is an expression without the white space at its end (`placed_found`), and an
expression that qualifies is wrapped unless it begins inside another one (`complete_cutAfter`). The
search over offsets comes to an end with just that (`wrapAll?_wrapping`).
-/

namespace MarkdownPrep.Wrap

open Text Stash

/-- An expression `e` of one kind stands between `x` and `v`. -/
structure Stands (candidate : Text → Option Nat) (x e v : Text) : Prop where
  before : x.getLast?.all isBlank
  read : ∃ n, candidate (e ++ v) = some n ∧ (e ++ v).take n = e

/-- An expression with the characters next to it. -/
def near (x e v : Text) : Text := x.getLast?.toList ++ e ++ v.take 1

/-- The place after `n` characters of a text lies inside an expression. -/
def Covered (candidate : Text → Option Nat) (s : Text) (n : Nat) : Prop :=
  ∃ x e v, s = x ++ (e ++ v) ∧ Stands candidate x e v ∧ x.length < n ∧ n < (x ++ e).length

/-- In the pieces `ps` of a text that stands after `x` every expression that qualifies is found,
unless it begins inside another one. -/
def Complete (candidate : Text → Option Nat) (S : Char) (x s : Text) (ps : List Piece) : Prop :=
  ∀ y e v, s = y ++ (e ++ v) → Stands candidate (x ++ y) e v →
    qualifies S (near (x ++ y) e v) (trim e) →
    (∃ qs rs, ps = qs ++ .found (trimEnd e) :: rs ∧ Piece.sources qs = y) ∨
      Covered candidate (x ++ s) (x ++ y).length

/-- A stretch has a character of math notation, a digit, a parenthesis, or two capitals with a small
letter, all of them ASCII. -/
def HasSignal (t : Text) : Prop :=
  (∃ c ∈ t, c ∈ "\\^_+=<>".toList) ∨ (∃ c ∈ t, c.isDigit) ∨ ('(' ∈ t ∨ ')' ∈ t) ∨
    (2 ≤ t.countP Char.isUpper ∧ 0 < t.countP Char.isLower)

/-- A stretch `t` between `x` and `y` that may be wrapped. -/
structure Region (S : Char) (x t y : Text) : Prop extends InPlace S x t y where
  not_letter : ∀ c, t = [c] → ¬ c.isAlpha
  hasSignal : HasSignal t

/-- The pieces `ps` of a text with the stretches found that a pass wraps. -/
structure Wrapping (candidate : Text → Option Nat) (S : Char) (s : Text) (ps : List Piece) :
    Prop where
  sources : Piece.sources ps = s
  regions : Piece.Placed (Region S) [] ps
  /-- What is found is an expression that qualifies. -/
  found : Piece.Placed (fun x t y => ∃ e v, t ++ y = e ++ v ∧ Stands candidate x e v ∧
    t = trimEnd e ∧ qualifies S (near x e v) (trim e)) [] ps
  complete : Complete candidate S [] s ps

/-! ## Expressions -/

section
variable {candidate : Text → Option Nat} {S : Char} {x e v : Text}

theorem Stands.eq {e' v' : Text} (h : Stands candidate x e v) (h' : Stands candidate x e' v')
    (hsame : e ++ v = e' ++ v') : e = e' ∧ v = v' := by
  obtain ⟨n, hn, htake⟩ := h.read
  obtain ⟨m, hm, htake'⟩ := h'.read
  rw [hsame, hm] at hn
  obtain rfl := Option.some.inj hn
  have he : e = e' := by rw [← htake, hsame, htake']
  exact ⟨he, List.append_cancel_left (he ▸ hsame)⟩

/-- The recogniser takes off an expression that stands at a place, -/
theorem Stands.recogniser_eq (h : Stands candidate x e v) :
    recogniser candidate S x.getLast? (e ++ v) = some (expressionPieces S (near x e v) e) := by
  obtain ⟨n, hn, htake⟩ := h.read
  have hdrop : (e ++ v).drop n = v := by
    have happ := List.take_append_drop n (e ++ v)
    rw [htake] at happ
    exact List.append_cancel_left happ
  rw [recogniser, if_pos h.before, hn, Option.map_some, htake, hdrop]
  rfl

/-- and nothing else. -/
theorem exists_stands {s : Text} {ps : List Piece}
    (h : recogniser candidate S x.getLast? s = some ps) : ∃ e v, s = e ++ v ∧
      Stands candidate x e v ∧ ps = expressionPieces S (near x e v) e := by
  unfold recogniser at h
  split at h
  · next hbefore =>
    obtain ⟨n, hn, rfl⟩ := Option.map_eq_some_iff.1 h
    have hsplit := List.take_append_drop n s
    exact ⟨s.take n, s.drop n, hsplit.symm, ⟨hbefore, n, by rw [hsplit, hn], by rw [hsplit]⟩, rfl⟩
  · cases h

theorem not_isAlpha_of_qualifies {w : Text} {c : Char} (h : qualifies S w [c]) : ¬ c.isAlpha := by
  simp only [qualifies, Bool.and_eq_true, Bool.not_eq_true'] at h
  simpa [isLetter] using h.1.2

theorem hasSignal_of_qualifies {w t : Text} (h : qualifies S w t) : HasSignal t := by
  simp only [qualifies, Bool.and_eq_true, Bool.or_eq_true] at h
  rcases h.2 with hsign | hformula
  · left
    simpa [hasMathSign, or_assoc] using hsign
  · right
    simp only [readsAsFormula, Bool.or_eq_true, Bool.and_eq_true, decide_eq_true_eq] at hformula
    rcases hformula with (hdigit | hbracket) | hletters
    · exact .inl (List.any_eq_true.1 hdigit)
    · obtain ⟨c, hc, hcase⟩ := List.any_eq_true.1 hbracket
      rw [Bool.or_eq_true, decide_eq_true_eq, decide_eq_true_eq] at hcase
      rcases hcase with rfl | rfl
      · exact .inr (.inl (.inl hc))
      · exact .inr (.inl (.inr hc))
    · exact .inr (.inr hletters)

end

/-! ## One pass -/

section
variable {candidate : Text → Option Nat} (h : candidate ∈ candidates) {S : Char}
include h

theorem Stands.ne_nil {x e v : Text} (he : Stands candidate x e v) : e ≠ [] := by
  obtain ⟨n, hn, htake⟩ := he.read
  exact htake ▸ take_ne_nil_of_candidate h hn

theorem Stands.trim_eq {x e v : Text} (he : Stands candidate x e v) : trim e = trimEnd e := by
  obtain ⟨n, hn, -⟩ := he.read
  obtain ⟨c, w, hcw, hc⟩ := exists_head_of_candidate h hn
  obtain ⟨d, e, rfl⟩ := List.exists_cons_of_ne_nil (he.ne_nil h)
  obtain ⟨rfl, -⟩ := List.cons.inj hcw
  rw [trim, trimStart, List.dropWhile_cons_of_neg hc]

/-- **What a pass wraps is an expression that qualifies.** -/
theorem placed_found (S : Char) (s : Text) :
    Piece.Placed (fun x t y => ∃ e v, t ++ y = e ++ v ∧ Stands candidate x e v ∧
      t = trimEnd e ∧ qualifies S (near x e v) (trim e)) [] (pieces candidate S s) := by
  refine placed_cut (honest_recogniser (fun _ _ => take_ne_nil_of_candidate h) S) ?_ s
  intro x u v ps hps hu
  obtain ⟨e, v', hsplit, he, rfl⟩ := exists_stands hps
  rw [sources_expressionPieces] at hu
  subst hu
  obtain rfl := List.append_cancel_left hsplit
  unfold expressionPieces
  split
  · next hq =>
    refine Piece.placed_found_cons.2 ⟨⟨e, v, ?_, he, rfl, hq⟩, Piece.placed_keep⟩
    rw [Piece.sources_keep, ← List.append_assoc,
      List.prefix_iff_eq_append.1 (Text.trimEnd_prefix e)]
  · exact Piece.placed_keep

/-- **Every stretch that a pass wraps is a region.** -/
theorem placed_region (S : Char) (s : Text) :
    Piece.Placed (Region S) [] (pieces candidate S s) := by
  intro qs t rs hps
  obtain ⟨e, v, -, he, rfl, hq⟩ := placed_found h S s qs t rs hps
  rw [he.trim_eq h] at hq
  refine ⟨placed_pieces h S s qs _ rs hps, fun c hc => ?_, hasSignal_of_qualifies hq⟩
  exact not_isAlpha_of_qualifies (hc ▸ hq)

theorem complete_nil (S : Char) (x : Text) : Complete candidate S x [] [] := by
  intro y e v hsplit he
  have hnil := (List.append_eq_nil_iff.1 hsplit.symm).2
  exact absurd (List.append_eq_nil_iff.1 hnil).1 (he.ne_nil h)

omit h in
/-- A character is kept where no expression stands. -/
theorem Complete.kept_cons {x s : Text} {c : Char} {ps : List Piece}
    (hnone : recogniser candidate S x.getLast? (c :: s) = none)
    (hps : Complete candidate S (x ++ [c]) s ps) :
    Complete candidate S x (c :: s) (.kept c :: ps) := by
  intro y e v hsplit he hq
  cases y with
  | nil =>
    rw [List.append_nil] at he
    rw [hsplit, List.nil_append, he.recogniser_eq] at hnone
    cases hnone
  | cons d y =>
    obtain ⟨rfl, rfl⟩ := List.cons.inj hsplit
    have hplace : x ++ c :: y = x ++ [c] ++ y := List.append_cons ..
    rw [hplace] at he hq ⊢
    rcases hps y e v rfl he hq with ⟨qs, rs, rfl, rfl⟩ | hcovered
    · exact .inl ⟨.kept c :: qs, rs, rfl, rfl⟩
    · exact .inr (by simpa using hcovered)

omit h in
/-- An expression is found if it qualifies, and those that begin later come after it or begin
inside it. -/
theorem Complete.expression {x e v : Text} {ps : List Piece} (he : Stands candidate x e v)
    (hps : Complete candidate S (x ++ e) v ps) :
    Complete candidate S x (e ++ v) (expressionPieces S (near x e v) e ++ ps) := by
  intro y e' v' hsplit he' hq
  rcases after_or_inside hsplit with ⟨y, rfl, hv⟩ | ⟨w, hw, rfl, hv⟩
  · rw [← List.append_assoc] at he' hq ⊢
    rcases hps y e' v' hv he' hq with ⟨qs, rs, rfl, rfl⟩ | hcovered
    · refine .inl ⟨expressionPieces S (near x e v) e ++ qs, rs, by simp, ?_⟩
      rw [Piece.sources_append, sources_expressionPieces]
    · exact .inr (by rwa [← List.append_assoc])
  · by_cases hy : y = []
    · subst hy
      rw [List.append_nil] at he' hq
      obtain ⟨rfl, rfl⟩ := he.eq he' hsplit
      exact .inl ⟨[], _, by rw [expressionPieces, if_pos hq]; rfl, rfl⟩
    · have hypos := List.length_pos_iff.2 hy
      have hwpos := List.length_pos_iff.2 hw
      refine .inr ⟨x, y ++ w, v, rfl, he, ?_, ?_⟩
      · rw [List.length_append]
        omega
      · simp only [List.length_append]
        omega

/-- **A pass finds every expression that qualifies** unless it begins inside another one. -/
theorem complete_cutAfter (S : Char) (x s : Text) :
    Complete candidate S x s (cutAfter (recogniser candidate S) x s) := by
  refine cut_induction (honest_recogniser (fun _ _ => take_ne_nil_of_candidate h) S)
    (motive := Complete candidate S) (complete_nil h S) ?_ ?_ x s
  · exact fun x c s hnone hps => hps.kept_cons hnone
  · intro x u v ps hread hu hps
    obtain ⟨e, v', hsplit, he, rfl⟩ := exists_stands hread
    rw [sources_expressionPieces] at hu
    subst hu
    obtain rfl := List.append_cancel_left hsplit
    exact hps.expression he

/-- **One pass is sound**: on any text the search comes to an end, dollars are put around regions,
and nothing else is changed. -/
theorem wrapAll?_wrapping (S : Char) (s : Text) : ∃ ps, Wrapping candidate S s ps ∧
    Offsets.wrapAll? candidate S s = some (wrapAll candidate S s) ∧
    wrapAll candidate S s = Piece.mapFound wrapped ps :=
  ⟨pieces candidate S s,
    ⟨sources_pieces h S s, placed_region h S s, placed_found h S s, complete_cutAfter h S [] s⟩,
    Offsets.wrapAll?_eq h s, wrapAll_eq⟩

end

/-- The white space between an equation and a token is not wrapped. -/
theorem wrapAll?_wrapping_of_token :
    let s : Text := "so x^2 = 4 \uE000__CURRENCY_0__\uE000".toList
    equation? ∈ candidates ∧ ∃ ps, Wrapping equation? '\uE000' s ps ∧
      Offsets.wrapAll? equation? '\uE000' s = some (wrapAll equation? '\uE000' s) ∧
      wrapAll equation? '\uE000' s = Piece.mapFound wrapped ps :=
  ⟨List.mem_cons_self, wrapAll?_wrapping List.mem_cons_self _ _⟩

example : Offsets.wrapAll? equation? '\uE000' "so x^2 = 4 \uE000__CURRENCY_0__\uE000".toList =
    some "so $x^2 = 4$ \uE000__CURRENCY_0__\uE000".toList := by decide +kernel

end MarkdownPrep.Wrap
