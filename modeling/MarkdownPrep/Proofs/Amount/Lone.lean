import MarkdownPrep.Proofs.Amount.Bare
import MarkdownPrep.Proofs.Amount.Exhausted

/-!
# An amount at a lone dollar

Where one dollar stands after text without any, an amount is read at it or none is: the sign before
the dollar and the figure after it (`exists_cutAfter_dollar`). Neither what follows a bare amount
between dollars nor what follows the last dollar is the right side of a range
(`no_range_of_shape`, `no_range_of_not_mem`).
-/

namespace MarkdownPrep.Amount

open Text

variable {before : Option Char} {p s t x rest right : Text}

/-- No right side of a range stands after the amount that leaves `s`. -/
def NoRange (s : Text) : Prop := ∀ right, afterDash? s = some right → afterAmount? none right = none

/-- An amount that is no left side of a range is taken off by itself. -/
theorem recogniser_eq_found (h : afterAmount? before (t ++ rest) = some rest)
    (hrange : NoRange rest) : recogniser before (t ++ rest) = some [.found t] := by
  have hnone : (afterDash? rest).bind (fun right => (afterAmount? none right).bind fun rest' =>
      some (Piece.found t :: Piece.keep (front rest right) ++ [.found (front right rest')])) =
      none := by
    cases hdash : afterDash? rest with
    | none => rfl
    | some right => rw [Option.bind_some, hrange right hdash, Option.bind_none]
  simp only [recogniser, Option.bind_eq_bind, h, Option.bind_some, front_append_left, hnone,
    Option.getD_none]

/-- What begins with an amount begins with its dollar, or with its sign and its dollar. -/
theorem exists_of_afterAmount? (h : afterAmount? before s = some rest) :
    ∃ sign u, s = sign ++ '$' :: u ∧ ∀ c ∈ sign, c = '-' := by
  unfold afterAmount? at h
  split at h
  · next u => exact ⟨['-'], u, rfl, by simp⟩
  · next u => exact ⟨[], u, rfl, by simp⟩
  · cases h

theorem no_range_of_not_mem (h : '$' ∉ s) : NoRange s := by
  intro right hdash
  obtain ⟨gap, rfl⟩ := suffix_of_afterDash? hdash
  cases hright : afterAmount? none right with
  | none => rfl
  | some rest =>
    obtain ⟨sign, u, rfl, -⟩ := exists_of_afterAmount? hright
    simp at h

/-- No dash stands between the end of a bare amount and the dollar after it. -/
theorem no_range_of_shape {a y : Text} (ha : Shape a) (hy : y <:+ a) (q : Text) :
    NoRange (y ++ '$' :: q) := by
  intro right hdash
  obtain ⟨gap, hgap⟩ := suffix_of_afterDash? hdash
  rw [← hgap] at hdash
  cases hright : afterAmount? none right with
  | none => rfl
  | some rest =>
    obtain ⟨sign, u, rfl, hsign⟩ := exists_of_afterAmount? hright
    obtain ⟨v, d, w, rfl, hd, hv, hw⟩ := exists_of_afterDash? hdash
    have hdollar : '$' ∉ a := ha.not_mem (by decide)
    have hgapdollar : '$' ∉ v ++ d :: w ++ sign := by
      rw [List.mem_append, not_or]
      exact ⟨dollar_not_mem_of_afterDash? hdash, fun hm => absurd (hsign _ hm) (by decide)⟩
    obtain ⟨rfl, -⟩ := eq_of_append_cons_eq (fun hm => hdollar (hy.subset hm)) hgapdollar
      (hgap.symm.trans (List.append_assoc (v ++ d :: w) sign ('$' :: u)).symm)
    -- what ends the dash of a range with its space ends no bare amount
    obtain ⟨c, hlast, hc⟩ := ha.getLast?_of_suffix hy (by simp)
    have hmem : c ∈ d :: (w ++ sign) := by
      have hsplit : v ++ d :: w ++ sign = v ++ d :: (w ++ sign) := by simp
      rw [hsplit, List.getLast?_append_of_ne_nil _ (List.cons_ne_nil _ _)] at hlast
      exact List.mem_of_getLast? hlast
    have hnot : c = '-' ∨ c = '–' ∨ c = ' ' ∨ c = '\t' := by
      simp only [List.mem_cons, List.mem_append] at hmem
      rcases hmem with rfl | hm | hm
      · exact hd.elim .inl (fun h => .inr (.inl h))
      · exact .inr (.inr (hw c hm))
      · exact .inl (hsign c hm)
    rcases hnot with rfl | rfl | rfl | rfl <;> exact absurd hc (by decide)

/-! ## The pass at a dollar -/

/-- What becomes of a dollar: with `t` around it, it is found as an amount if one is `taken`. -/
def dollarPiece (taken : Bool) (t : Text) : Piece := if taken then .found t else .kept '$'

/-- Where no dollar stands no amount begins, if none does at a sign before the text that follows. -/
theorem cutAfter_keep_append {w : Text} (hdollar : '$' ∉ w)
    (hsign : ∀ v, w = v ++ ['-'] → afterAmount? (x ++ v).getLast? ('-' :: s) = none) :
    cutAfter recogniser x (w ++ s) = Piece.keep w ++ cutAfter recogniser (x ++ w) s := by
  refine cutAfter_append_of_none fun y c u hw => recogniser_eq_none_iff.2 ?_
  subst hw
  rw [List.mem_append, List.mem_cons, not_or, not_or] at hdollar
  rcases u with _ | ⟨d, u⟩
  · by_cases hc : c = '-'
    · subst hc
      exact hsign y rfl
    · refine afterAmount?_eq_none _ ?_ fun t ht => hc (List.cons.inj ht).1
      exact fun t ht => hdollar.2.1 (List.cons.inj ht).1.symm
  · refine afterAmount?_eq_none _ (fun t ht => hdollar.2.1 (List.cons.inj ht).1.symm) fun t ht => ?_
    have hd : d = '$' := (List.cons.inj (List.cons.inj ht).2).1
    exact hdollar.2.2 (hd ▸ List.mem_cons_self)

/-- An amount that is read is found, its sign and dollar and what of `s` is its figure. -/
theorem exists_cutAfter_found {sign : Text} (hsign : '$' ∉ sign)
    (h : afterAmount? x.getLast? (sign ++ '$' :: s) = some rest)
    (hrange : ∀ y, y <:+ s → NoRange y) :
    ∃ f, s = f ++ rest ∧ '$' ∉ f ∧ startsWithName rest = false ∧
      cutAfter recogniser x (sign ++ '$' :: s) =
        .found (sign ++ '$' :: f) :: cutAfter recogniser (x ++ (sign ++ '$' :: f)) rest := by
  obtain ⟨t, ht⟩ := isSuffix_of_afterAmount? h
  rw [← ht] at h
  obtain ⟨u, f, rfl, hu, hf⟩ := (isWritten_of_afterAmount? h).exists_split
  obtain ⟨rfl, rfl⟩ := eq_of_append_cons_eq hu hsign ((List.append_assoc ..).symm.trans ht)
  refine ⟨f, rfl, hf, (afterAmount?_eq_some_iff.1 h).1.2, ?_⟩
  have hfound := recogniser_eq_found h (hrange rest (List.suffix_append f rest))
  rw [← ht]
  exact cutAfter_append_of_found honest_recogniser hfound

/-- What is an amount with its sign is one without it. -/
theorem afterAmount?_dollar_of_sign (h : afterAmount? before ('-' :: '$' :: s) = some rest) :
    afterAmount? none ('$' :: s) = some rest := by
  have hgrouped : (afterGrouped s).find? (!startsWithName ·) = some rest := h
  rw [afterAmount?, if_neg (by simp), List.find?_append, hgrouped, Option.some_or]

/-- True when a dollar before a text begins an amount. -/
def opensAmount (s : Text) : Bool := (afterAmount? none ('$' :: s)).isSome

/-- **What is read at a lone dollar**: an amount with its sign, or none. Which it is the text after
the dollar decides. -/
theorem exists_cutAfter_dollar (hp : '$' ∉ p) (hlast : (x ++ p).getLast? ≠ some '\\')
    (hrange : ∀ y, y <:+ s → NoRange y) :
    ∃ w sign f y, p = w ++ sign ∧ s = f ++ y ∧ (∀ c ∈ sign, c = '-') ∧ '$' ∉ f ∧
      (opensAmount s → startsWithName y = false) ∧
      (opensAmount s = false → sign = [] ∧ f = []) ∧
      cutAfter recogniser x (p ++ '$' :: s) = Piece.keep w ++
        dollarPiece (opensAmount s) (sign ++ '$' :: f) ::
          cutAfter recogniser (x ++ (p ++ '$' :: f)) y := by
  by_cases hsigned : ∃ w rest, p = w ++ ['-'] ∧
      afterAmount? (x ++ w).getLast? ('-' :: '$' :: s) = some rest
  · obtain ⟨w, rest, rfl, hread⟩ := hsigned
    have hopens : opensAmount s := by
      rw [opensAmount, afterAmount?_dollar_of_sign hread, Option.isSome_some]
    have hsign : '$' ∉ ['-'] := by decide
    obtain ⟨f, rfl, hf, hname, hcut⟩ := exists_cutAfter_found hsign hread hrange
    have hw : '$' ∉ w := fun hm => hp (List.mem_append_left _ hm)
    have hkeep := cutAfter_keep_append (x := x) (s := '-' :: '$' :: (f ++ rest)) hw fun v _ =>
      afterAmount?_eq_none _ (fun t ht => by cases ht) fun t ht => by cases ht
    have hsplit : w ++ ['-'] ++ '$' :: (f ++ rest) = w ++ '-' :: '$' :: (f ++ rest) := by simp
    refine ⟨w, ['-'], f, rest, rfl, rfl, by simp, hf, fun _ => hname, ?_, ?_⟩
    · rw [hopens]
      nofun
    · rw [hsplit, hkeep, hopens]
      simpa [dollarPiece] using hcut
  · have hkeep := cutAfter_keep_append (x := x) (s := '$' :: s) hp fun v hv =>
      Option.eq_none_iff_forall_ne_some.2 fun rest hrest => hsigned ⟨v, rest, hv, hrest⟩
    have hread := afterAmount?_eq_of_ne hlast ('$' :: s)
    rw [hkeep, opensAmount]
    cases hnone : afterAmount? none ('$' :: s) with
    | none =>
      rw [hnone] at hread
      refine ⟨p, [], [], s, by simp, rfl, by simp, by simp, nofun, fun _ => ⟨rfl, rfl⟩, ?_⟩
      rw [cutAfter_of_none (recogniser_eq_none_iff.2 hread), List.append_assoc]
      rfl
    | some rest =>
      rw [hnone] at hread
      have hsign : '$' ∉ ([] : Text) := List.not_mem_nil
      obtain ⟨f, rfl, hf, hname, hcut⟩ := exists_cutAfter_found hsign hread hrange
      refine ⟨p, [], f, rest, by simp, rfl, by simp, hf, fun _ => hname, nofun, ?_⟩
      simpa [dollarPiece] using hcut

/-! ## Two dollars around a bare amount -/

section
variable {a q y : Text}

/-- No range goes on over the dollar that ends a bare amount. -/
theorem no_range_of_suffix (ha : Shape a) (hq : '$' ∉ q) (hy : y <:+ a ++ '$' :: q) :
    NoRange y := by
  obtain ⟨u, hu⟩ := hy
  rcases List.append_eq_append_iff.1 hu with ⟨v, rfl, rfl⟩ | ⟨v, rfl, hv⟩
  · exact no_range_of_shape ha (List.suffix_append u v) q
  · cases v with
    | nil =>
      rw [← List.nil_append y, ← hv]
      exact no_range_of_shape ha List.nil_suffix q
    | cons c v =>
      refine no_range_of_not_mem fun hm => hq ?_
      rw [(List.cons.inj hv).2]
      exact List.mem_append_right v hm

/-- What is read as amounts of a text in which two dollars stand around `a`: at the first dollar
`sign` and `figure` with it, at the last one `lastFigure`. -/
structure PairReading (p a q : Text) where
  before : Text
  sign : Text
  figure : Text
  between : Text
  lastFigure : Text
  after : Text
  before_eq : p = before ++ sign
  between_eq : a = figure ++ between
  after_eq : q = lastFigure ++ after
  sign_eq : ∀ c ∈ sign, c = '-'
  nil_of_first : opensAmount (a ++ '$' :: q) = false → sign = [] ∧ figure = []
  nil_of_last : opensAmount q = false → lastFigure = []
  ends : opensAmount q → startsWithName after = false
  amounts_eq : amounts (p ++ '$' :: (a ++ '$' :: q)) = Piece.keep before ++
    dollarPiece (opensAmount (a ++ '$' :: q)) (sign ++ '$' :: figure) ::
      (Piece.keep between ++ dollarPiece (opensAmount q) ('$' :: lastFigure) :: Piece.keep after)

/-- **What is read at the two dollars around a bare amount.** -/
theorem exists_pairReading (hp : '$' ∉ p) (hp' : '\\' ∉ p) (ha : Shape a) (hq : '$' ∉ q) :
    Nonempty (PairReading p a q) := by
  have hdollar : '$' ∉ a := ha.not_mem (by decide)
  obtain ⟨w, sign, f, s, rfl, hs, hsign, hf, -, hfirst, hcut⟩ := exists_cutAfter_dollar (x := []) hp
    (fun h => hp' (List.mem_of_getLast? h)) fun y => no_range_of_suffix ha hq
  obtain ⟨y, rfl, rfl⟩ : ∃ y, a = f ++ y ∧ s = y ++ '$' :: q := by
    rcases List.append_eq_append_iff.1 hs with ⟨u, rfl, hu⟩ | ⟨u, rfl, hu⟩
    · cases u with
      | nil => exact ⟨[], by simp, hu.symm⟩
      | cons c u => exact absurd (by simp [← (List.cons.inj hu).1]) hf
    · exact ⟨u, rfl, hu⟩
  have hy : '$' ∉ y := fun hm => hdollar (List.mem_append_right f hm)
  obtain ⟨c, hc, hfinal⟩ := ha.last
  have hend : (w ++ sign ++ '$' :: f ++ y).getLast? = some c := by
    have hsplit : w ++ sign ++ '$' :: f ++ y = w ++ sign ++ ['$'] ++ (f ++ y) := by simp
    rw [hsplit, List.getLast?_append, hc, Option.some_or]
  obtain ⟨v, sign', g, z, hv, rfl, hsign', -, hname, hlast, hcut'⟩ :=
    exists_cutAfter_dollar (x := w ++ sign ++ '$' :: f) (p := y) (s := q) hy
      (by
        rw [hend]
        rintro ⟨⟩
        exact absurd hfinal (by decide))
      fun y hy => no_range_of_not_mem fun hm => hq (hy.subset hm)
  -- no dash ends a bare amount, so the second dollar has no sign
  obtain rfl : sign' = [] := by
    by_contra hne
    rw [hv, ← List.append_assoc, List.getLast?_append_of_ne_nil _ hne] at hend
    exact absurd (hsign' c (List.mem_of_getLast? hend) ▸ hfinal) (by decide)
  obtain rfl : y = v := by rw [hv, List.append_nil]
  have hz : '$' ∉ z := fun hm => hq (List.mem_append_right g hm)
  have hkeep := cutAfter_keep_append (x := w ++ sign ++ '$' :: f ++ (y ++ '$' :: g)) (s := []) hz
    fun _ _ => rfl
  rw [List.append_nil, cutAfter_nil, List.append_nil] at hkeep
  rw [hkeep] at hcut'
  rw [List.nil_append, hcut'] at hcut
  exact ⟨⟨w, sign, f, y, g, z, rfl, rfl, rfl, hsign, hfirst, fun h => (hlast h).2, hname, hcut⟩⟩

end

end MarkdownPrep.Amount
