import Mathlib.Algebra.Ring.Parity
import MarkdownPrep.Proofs.Wrap.Place

/-!
# The dollars of wrapped text

Wrapping puts in dollars and nothing else, and an even number of them. They pair up, every opening
one after a break and every closing one before a break (`DollarsPaired`), exactly if no pass wraps
a stretch inside one that an earlier pass has wrapped (`Apart`): `wrapBareMath_spec`.

One pass keeps pairs apart, and breaks a pairing for good if it wraps between the dollars of a pair
(`pairedAfter_mapFound`).

* `not_dollarsPaired_of_fraction`: an equation that holds a fraction is wrapped twice.
-/

namespace MarkdownPrep.Wrap

/-- In a text that stands after `p`, a dollar with an even number of dollars before it opens and
stands at the start or after white space; any other one closes and stands at the end or before
white space. -/
def PairedAfter (p s : Text) : Prop :=
  ∀ x y, s = x ++ '$' :: y →
    if Even ((p ++ x).count '$') then (p ++ x).getLast?.all isBlank else atBreak y

/-- The dollars of a text, taken in pairs from the front, stand around stretches between breaks. -/
def DollarsPaired (s : Text) : Prop := Even (s.count '$') ∧ PairedAfter [] s

/-- Every stretch that a pass wraps has an even number of dollars before it, so it stands in no
pair of dollars. -/
def Apart (sentinel : Char) : List (Text → Option Nat) → Text → Prop
  | [], _ => True
  | candidate :: candidates, s =>
    Piece.Placed (fun x _ _ => Even (x.count '$')) [] (pieces candidate sentinel s) ∧
      Apart sentinel candidates (wrapAll candidate sentinel s)

/-! ## Pairs -/

section
variable {p s : Text}

@[simp] theorem pairedAfter_nil : PairedAfter p [] := fun x y h => by simp at h

theorem pairedAfter_dollar_cons : PairedAfter p ('$' :: s) ↔
    (if Even (p.count '$') then p.getLast?.all isBlank else atBreak s) ∧
      PairedAfter (p ++ ['$']) s := by
  constructor
  · intro h
    refine ⟨by simpa using h [] s rfl, ?_⟩
    rintro x y rfl
    simpa using h ('$' :: x) y rfl
  · rintro ⟨h₁, h₂⟩ x y hxy
    cases x with
    | nil =>
      obtain ⟨-, rfl⟩ := List.cons.inj hxy
      simpa using h₁
    | cons c x =>
      obtain ⟨rfl, rfl⟩ := List.cons.inj hxy
      simpa using h₂ x y rfl

theorem pairedAfter_cons {c : Char} (hc : c ≠ '$') :
    PairedAfter p (c :: s) ↔ PairedAfter (p ++ [c]) s := by
  constructor
  · rintro h x y rfl
    simpa using h (c :: x) y rfl
  · rintro h x y hxy
    cases x with
    | nil => exact absurd (List.cons.inj hxy).1 hc
    | cons d x =>
      obtain ⟨rfl, rfl⟩ := List.cons.inj hxy
      simpa using h x y rfl

theorem pairedAfter_append {t : Text} (ht : '$' ∉ t) :
    PairedAfter p (t ++ s) ↔ PairedAfter (p ++ t) s := by
  induction t generalizing p with
  | nil => simp
  | cons c t ih =>
    rw [List.mem_cons, not_or] at ht
    rw [List.cons_append, pairedAfter_cons (Ne.symm ht.1), ih ht.2, List.append_assoc]
    rfl

theorem pairedAfter_of_not_mem (h : '$' ∉ s) : PairedAfter p s := by
  rintro x y rfl
  simp at h

end

/-! ## One pass -/

section
variable {sentinel : Char} {ps : List Piece}

/-- What takes the place of a wrapped stretch. -/
def wrapped (t : Text) : Text := '$' :: t ++ ['$']

/-- Wrapping puts nothing in but dollars. -/
theorem filter_mapFound_wrapped :
    (Piece.mapFound wrapped ps).filter (· ≠ '$') = (Piece.sources ps).filter (· ≠ '$') := by
  induction ps with
  | nil => rfl
  | cons p ps ih =>
    cases p with
    | kept c =>
      rw [Piece.mapFound_kept_cons, Piece.sources_cons, Piece.source, List.singleton_append,
        List.filter_cons, List.filter_cons, ih]
    | found t =>
      rw [Piece.mapFound_found_cons, Piece.sources_cons, Piece.source, List.filter_append,
        List.filter_append, ih]
      simp [wrapped]

/-- The dollars that are put in are even in number. -/
theorem even_count_mapFound_wrapped :
    Even ((Piece.mapFound wrapped ps).count '$') ↔ Even ((Piece.sources ps).count '$') := by
  suffices h : ∃ k, (Piece.mapFound wrapped ps).count '$' = (Piece.sources ps).count '$' + 2 * k by
    obtain ⟨k, hk⟩ := h
    rw [hk, Nat.even_add]
    simp only [even_two, Even.mul_right, iff_true]
  induction ps with
  | nil => exact ⟨0, rfl⟩
  | cons p ps ih =>
    obtain ⟨k, hk⟩ := ih
    cases p with
    | kept c =>
      refine ⟨k, ?_⟩
      simp only [Piece.mapFound_kept_cons, Piece.sources_cons, Piece.source,
        List.singleton_append, List.count_cons, hk]
      omega
    | found t =>
      refine ⟨k + 1, ?_⟩
      simp only [Piece.mapFound_found_cons, Piece.sources_cons, Piece.source, wrapped,
        List.count_append, List.count_cons_self, List.count_nil, hk, List.cons_append]
      omega

/-- A pass changes no break into one, nor away: what it finds begins with no white space. -/
theorem atBreak_mapFound_wrapped {x : Text} (h : Piece.Placed (InPlace sentinel) x ps) :
    atBreak (Piece.mapFound wrapped ps) = atBreak (Piece.sources ps) := by
  cases ps with
  | nil => rfl
  | cons p ps =>
    cases p with
    | kept c => simp [atBreak, Piece.source]
    | found t =>
      obtain ⟨c, w, rfl, hc⟩ := (Piece.placed_found_cons.1 h).1.head
      have hd : isBlank '$' = false := by decide
      simp [atBreak, wrapped, Piece.source, hd, hc]

/-- **A pass keeps dollars paired exactly if it wraps nothing inside a pair.** The text before is
`x` before the pass and `p` after it. -/
theorem pairedAfter_mapFound {x p : Text} (h : Piece.Placed (InPlace sentinel) x ps)
    (heven : Even (p.count '$') ↔ Even (x.count '$'))
    (hlast : p.getLast? = x.getLast? ∨ atBreak (Piece.sources ps)) :
    PairedAfter p (Piece.mapFound wrapped ps) ↔
      PairedAfter x (Piece.sources ps) ∧ Piece.Placed (fun a _ _ => Even (a.count '$')) x ps := by
  have hdollar : isBlank '$' = false := by decide
  induction ps generalizing x p with
  | nil => simp
  | cons q ps ih =>
    cases q with
    | kept c =>
      have h := Piece.placed_kept_cons.1 h
      have hps : _ ↔ _ := ih (p := p ++ [c]) h
        (by simp [List.count_append, Nat.even_add, heven]) (.inl (by simp))
      simp only [Piece.mapFound_kept_cons, Piece.sources_cons, Piece.source,
        List.singleton_append, Piece.placed_kept_cons] at hlast ⊢
      by_cases hc : c = '$'
      · subst hc
        have hlast : p.getLast? = x.getLast? := hlast.resolve_right (by simp [atBreak, hdollar])
        rw [pairedAfter_dollar_cons, pairedAfter_dollar_cons, hps, hlast,
          atBreak_mapFound_wrapped h, and_assoc]
        simp only [heven]
      · rw [pairedAfter_cons hc, pairedAfter_cons hc, hps]
    | found t =>
      obtain ⟨hin, h⟩ := Piece.placed_found_cons.1 h
      obtain ⟨c, w, hcw, hc⟩ := hin.head
      have hlast : p.getLast? = x.getLast? := by
        refine hlast.resolve_right ?_
        simp [hcw, Piece.source, atBreak, hc]
      have hparity : Even ((p ++ ['$'] ++ t ++ ['$']).count '$') ↔ Even ((x ++ t).count '$') := by
        simp only [List.count_append, List.count_eq_zero_of_not_mem hin.dollar,
          List.count_singleton_self, Nat.even_add, heven]
        simp
      have hps : _ ↔ _ := ih h hparity (.inr hin.after)
      have hbreak : ¬ atBreak (t ++ '$' :: Piece.mapFound wrapped ps) := by
        simp [hcw, atBreak, hc]
      have hshift : Piece.mapFound wrapped (.found t :: ps) =
          '$' :: (t ++ '$' :: Piece.mapFound wrapped ps) := by simp [wrapped]
      rw [hshift, pairedAfter_dollar_cons, pairedAfter_append hin.dollar, pairedAfter_dollar_cons,
        hps, Piece.sources_cons, Piece.source, pairedAfter_append hin.dollar,
        Piece.placed_found_cons, atBreak_mapFound_wrapped h, hlast]
      have hodd : (p ++ ['$'] ++ t).count '$' = p.count '$' + 1 := by
        simp [List.count_append, List.count_eq_zero_of_not_mem hin.dollar]
      rw [hodd]
      by_cases hx : Even (x.count '$')
      · have hp : Even (p.count '$') := heven.2 hx
        have hp' : ¬ Even (p.count '$' + 1) := by rw [Nat.even_add_one]; exact not_not.2 hp
        simp only [hx, hp, hp', hin.before, hin.after, if_true, if_false, true_and]
      · simp only [hx, mt heven.1 hx, hbreak, if_false, Bool.false_eq_true, false_and,
          and_false]

end

/-! ## All passes -/

section
variable {candidate : Text → Option Nat} {sentinel : Char} {s : Text}

theorem wrapAll_eq : wrapAll candidate sentinel s =
    Piece.mapFound wrapped (pieces candidate sentinel s) := rfl

theorem filter_wrapAll (h : candidate ∈ candidates) :
    (wrapAll candidate sentinel s).filter (· ≠ '$') = s.filter (· ≠ '$') := by
  rw [wrapAll_eq, filter_mapFound_wrapped, sources_pieces h]

theorem even_count_wrapAll (h : candidate ∈ candidates) :
    Even ((wrapAll candidate sentinel s).count '$') ↔ Even (s.count '$') := by
  rw [wrapAll_eq, even_count_mapFound_wrapped, sources_pieces h]

theorem dollarsPaired_wrapAll_iff (h : candidate ∈ candidates) :
    DollarsPaired (wrapAll candidate sentinel s) ↔ DollarsPaired s ∧
      Piece.Placed (fun x _ _ => Even (x.count '$')) [] (pieces candidate sentinel s) := by
  have hpass := pairedAfter_mapFound (p := []) (placed_pieces h sentinel s) Iff.rfl (.inl rfl)
  rw [sources_pieces h] at hpass
  exact (and_congr (even_count_wrapAll h) hpass).trans and_assoc.symm

theorem foldl_wrapAll (sentinel : Char) (s : Text) (l : List (Text → Option Nat))
    (hl : ∀ candidate ∈ l, candidate ∈ candidates) :
    (l.foldl (fun s candidate => wrapAll candidate sentinel s) s).filter (· ≠ '$') =
        s.filter (· ≠ '$') ∧
      (Even ((l.foldl (fun s candidate => wrapAll candidate sentinel s) s).count '$') ↔
        Even (s.count '$')) ∧
      (DollarsPaired (l.foldl (fun s candidate => wrapAll candidate sentinel s) s) ↔
        DollarsPaired s ∧ Apart sentinel l s) := by
  induction l generalizing s with
  | nil => simp [Apart]
  | cons candidate l ih =>
    rw [List.forall_mem_cons] at hl
    obtain ⟨hfilter, heven, hpaired⟩ := ih hl.2 (s := wrapAll candidate sentinel s)
    rw [List.foldl_cons, hfilter, heven, hpaired, dollarsPaired_wrapAll_iff hl.1, and_assoc]
    exact ⟨filter_wrapAll hl.1, even_count_wrapAll hl.1, Iff.rfl⟩

/-- **The dollars of wrapped text.** Without them the text is as before; they are even in number;
and they are paired exactly if nothing is wrapped inside what is wrapped already. -/
theorem wrapBareMath_spec (hs : '$' ∉ s) :
    (wrapBareMath sentinel s).filter (· ≠ '$') = s ∧
      Even ((wrapBareMath sentinel s).count '$') ∧
      (DollarsPaired (wrapBareMath sentinel s) ↔ Apart sentinel candidates s) := by
  obtain ⟨hfilter, heven, hpaired⟩ := foldl_wrapAll sentinel s candidates
    fun _ h => h
  have hcount : s.count '$' = 0 := List.count_eq_zero_of_not_mem hs
  refine ⟨hfilter.trans (List.filter_eq_self.2 fun c hc => ?_), heven.2 (by simp [hcount]), ?_⟩
  · exact decide_eq_true fun h => hs (h ▸ hc)
  · exact hpaired.trans (and_iff_right ⟨by simp [hcount], pairedAfter_of_not_mem hs⟩)

theorem wrapBareMath_spec_of_equation :
    '$' ∉ "E^2 = m and H2O".toList ∧
      (wrapBareMath '\uE000' "E^2 = m and H2O".toList).filter (· ≠ '$') =
          "E^2 = m and H2O".toList ∧
        Even ((wrapBareMath '\uE000' "E^2 = m and H2O".toList).count '$') ∧
        (DollarsPaired (wrapBareMath '\uE000' "E^2 = m and H2O".toList) ↔
          Apart '\uE000' candidates "E^2 = m and H2O".toList) :=
  ⟨by decide, wrapBareMath_spec (by decide)⟩

/-- A fraction inside an equation is wrapped again. -/
theorem not_dollarsPaired_of_fraction :
    '$' ∉ "x^2 = 1 \\frac{1}{2} y".toList ∧ isPrivateUse '\uE000' ∧
      ¬ DollarsPaired (wrapBareMath '\uE000' "x^2 = 1 \\frac{1}{2} y".toList) := by
  refine ⟨by decide, by decide, fun h => ?_⟩
  have hout : wrapBareMath '\uE000' "x^2 = 1 \\frac{1}{2} y".toList =
      "$x^2 = 1 ".toList ++ '$' :: "\\frac{1}{2}$ y$".toList := by decide +kernel
  exact absurd (h.2 _ _ hout) (by decide)

end

end MarkdownPrep.Wrap
