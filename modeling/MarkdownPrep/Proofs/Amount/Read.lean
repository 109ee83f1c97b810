import Mathlib.Data.List.TakeWhile
import MarkdownPrep.Amount.Currency
import MarkdownPrep.Proofs.Text.CharCode
import MarkdownPrep.Proofs.Text.Pieces
import MarkdownPrep.Proofs.Text.PrivateUse

/-!
# What an amount is read from

An amount is written with ASCII letters and digits and a few signs (`isAmountChar`), whichever way
it is read: each reader leaves what follows such characters (`Leaves`). What is found in a text is one
amount or the two of a range (`exists_of_recogniser`), so `placed_amounts` can say what every amount
found in a text is like.
-/

namespace MarkdownPrep.Amount

/-- The characters that amounts are written with. -/
def isAmountChar (c : Char) : Bool :=
  c.isAlphanum || c = '$' || c = '-' || c = '(' || c = ')' || c = ',' || c = '.' || c = ' ' ||
    c = '\t'

/-- The characters that an amount has after its dollar. -/
def isFigureChar (c : Char) : Bool := isAmountChar c && c ≠ '$'

theorem isFigureChar_of_isDigit {c : Char} (h : c.isDigit) : isFigureChar c := by
  have hc : c ≠ '$' := by rintro rfl; exact absurd h (by decide)
  simp [isFigureChar, isAmountChar, Char.isAlphanum, h, hc]

theorem isFigureChar_of_isAlpha {c : Char} (h : c.isAlpha) : isFigureChar c := by
  have hc : c ≠ '$' := by rintro rfl; exact absurd h (by decide)
  simp [isFigureChar, isAmountChar, Char.isAlphanum, h, hc]

theorem not_isPrivateUse_of_isAmountChar {c : Char} (h : isAmountChar c) : ¬ isPrivateUse c := by
  intro hc
  have hc := isPrivateUse_iff.1 hc
  simp only [isAmountChar, Bool.or_eq_true, decide_eq_true_eq, isAlphanum_iff] at h
  rcases h with (((((((h | rfl) | rfl) | rfl) | rfl) | rfl) | rfl) | rfl) | rfl
  · omega
  all_goals exact absurd hc (by decide)

/-- `t` is what is left of `s` after characters that satisfy `p`. -/
def Leaves (p : Char → Bool) (s t : Text) : Prop := ∃ u, s = u ++ t ∧ ∀ c ∈ u, p c

section
variable {p isDigit : Char → Bool}

theorem Leaves.refl (s : Text) : Leaves p s s := ⟨[], rfl, by simp⟩

theorem Leaves.trans {s t u : Text} (h : Leaves p s t) (h' : Leaves p t u) : Leaves p s u := by
  obtain ⟨x, rfl, hx⟩ := h
  obtain ⟨y, rfl, hy⟩ := h'
  exact ⟨x ++ y, (List.append_assoc ..).symm, List.forall_mem_append.2 ⟨hx, hy⟩⟩

theorem leaves_append {u : Text} (h : ∀ c ∈ u, p c) (s : Text) : Leaves p (u ++ s) s :=
  ⟨u, rfl, h⟩

theorem leaves_cons {c : Char} (h : p c) (s : Text) : Leaves p (c :: s) s :=
  leaves_append (u := [c]) (by simpa using h) s

theorem leaves_dropWhile (h : ∀ c, isDigit c → p c) (s : Text) :
    Leaves p s (s.dropWhile isDigit) :=
  ⟨s.takeWhile isDigit, List.takeWhile_append_dropWhile.symm,
    fun c hc => h c (List.mem_takeWhile_imp hc)⟩

theorem leaves_dropOne {c : Char} (h : p c) (s : Text) : Leaves p s (Text.dropOne c s) := by
  cases s with
  | nil => exact .refl []
  | cons d s =>
    rw [Text.dropOne]
    split
    · next hd => exact hd ▸ leaves_cons h s
    · exact .refl _

/-! ## The parts of an amount -/

variable {s t : Text}

theorem leaves_of_mem_afterGroups (hdigit : ∀ c, isDigit c → p c) (hcomma : p ',')
    (h : t ∈ afterGroups isDigit s) : Leaves p s t := by
  fun_induction afterGroups isDigit s with
  | case1 a b c s hd ih =>
    simp only [Bool.and_eq_true] at hd
    rcases List.mem_append.1 h with h | h
    · refine (leaves_append (u := [',', a, b, c]) ?_ s).trans (ih h)
      simp [hdigit, hd, hcomma]
    · exact List.mem_singleton.1 h ▸ .refl _
  | case2 => exact List.mem_singleton.1 h ▸ .refl _
  | case3 => exact List.mem_singleton.1 h ▸ .refl _

theorem leaves_of_mem_afterFraction (hdigit : ∀ c, isDigit c → p c) (hpoint : p '.')
    (h : t ∈ afterFraction isDigit s) : Leaves p s t := by
  unfold afterFraction at h
  split at h
  · split at h
    · rcases List.mem_cons.1 h with rfl | h
      · exact (leaves_cons hpoint _).trans (leaves_dropWhile hdigit _)
      · exact List.mem_singleton.1 h ▸ .refl _
    · exact List.mem_singleton.1 h ▸ .refl _
  · exact List.mem_singleton.1 h ▸ .refl _

end

section
variable {s t : Text}

theorem leaves_of_mem_afterParenthesis (h : t ∈ afterParenthesis s) : Leaves isFigureChar s t := by
  unfold afterParenthesis at h
  split at h
  · rcases List.mem_cons.1 h with rfl | h
    · exact leaves_cons (by decide) _
    · exact List.mem_singleton.1 h ▸ .refl _
  · exact List.mem_singleton.1 h ▸ .refl _

theorem isAlpha_of_isAlpha_toLower {c : Char} (h : c.toLower.isAlpha) : c.isAlpha := by
  by_cases hu : c.isUpper
  · exact Bool.or_eq_true_iff.2 (.inl hu)
  · rwa [toLower_of_not_isUpper hu] at h

/-- A word in any case is read from letters. -/
theorem leaves_of_dropPrefixIgnoringCase? {word : Text} (hw : ∀ c ∈ word, c.toLower.isAlpha)
    (h : Text.dropPrefixIgnoringCase? word s = some t) : Leaves isFigureChar s t := by
  unfold Text.dropPrefixIgnoringCase? at h
  split at h
  · next he =>
    cases h
    refine ⟨s.take word.length, (List.take_append_drop _ _).symm, fun c hc => ?_⟩
    have hlow : Text.lower (s.take word.length) = Text.lower word := by
      simpa [Text.eqIgnoringCase] using he
    have hm : c.toLower ∈ Text.lower word := hlow ▸ List.mem_map_of_mem hc
    obtain ⟨d, hd, he⟩ := List.mem_map.1 hm
    exact isFigureChar_of_isAlpha (isAlpha_of_isAlpha_toLower (he ▸ hw d hd))
  · cases h

theorem leaves_of_mem_afterMagnitude (h : t ∈ afterMagnitude s) : Leaves isFigureChar s t := by
  rcases List.mem_append.1 h with h | h
  · obtain ⟨w, hw, h⟩ := List.mem_filterMap.1 h
    have hwords : ∀ w ∈ magnitudeWords, w.all (·.toLower.isAlpha) := by decide
    exact leaves_of_dropPrefixIgnoringCase? (List.all_eq_true.1 (hwords w hw)) h
  · split at h
    · split at h
      · next hc =>
        have hletters : ∀ c ∈ magnitudeLetters, isFigureChar c := List.all_eq_true.1 (by decide)
        exact List.mem_singleton.1 h ▸ leaves_cons (hletters _ (by simpa using hc)) _
      · cases h
    · cases h

theorem leaves_of_mem_afterSuffix (h : t ∈ afterSuffix s) : Leaves isFigureChar s t := by
  simp only [afterSuffix, List.mem_append, List.mem_singleton] at h
  rcases h with (h | h) | rfl
  · split at h
    · next c u =>
      split at h
      · next hc =>
        have hsp : isFigureChar c := by
          simp only [Bool.or_eq_true, decide_eq_true_eq] at hc
          rcases hc with rfl | rfl <;> decide
        exact (leaves_cons hsp u).trans (leaves_of_mem_afterMagnitude h)
      · cases h
    · cases h
  · exact leaves_of_mem_afterMagnitude h
  · exact .refl _

theorem leaves_of_mem_afterGrouped (h : t ∈ afterGrouped s) : Leaves isFigureChar s t := by
  simp only [afterGrouped] at h
  split at h
  · obtain ⟨a, ha, h⟩ := List.mem_flatMap.1 h
    obtain ⟨b, hb, h⟩ := List.mem_flatMap.1 h
    obtain ⟨c, hc, h⟩ := List.mem_flatMap.1 h
    rw [Text.drop_length_takeWhile] at ha
    have hdigit : ∀ c, Char.isDigit c → isFigureChar c := fun _ => isFigureChar_of_isDigit
    exact (leaves_dropOne (by decide) s).trans <| (leaves_dropWhile hdigit _).trans <|
      (leaves_of_mem_afterGroups hdigit (by decide) ha).trans <|
      (leaves_of_mem_afterFraction hdigit (by decide) hb).trans <|
      (leaves_of_mem_afterParenthesis hc).trans (leaves_of_mem_afterSuffix h)
  · cases h

theorem leaves_of_mem_afterPlain (h : t ∈ afterPlain s) : Leaves isFigureChar s t := by
  simp only [afterPlain] at h
  split at h
  · obtain ⟨a, ha, h⟩ := List.mem_flatMap.1 h
    have hdigit : ∀ c, Char.isDigit c → isFigureChar c := fun _ => isFigureChar_of_isDigit
    exact (leaves_dropOne (by decide) s).trans <| (leaves_dropWhile hdigit _).trans <|
      (leaves_of_mem_afterFraction hdigit (by decide) ha).trans (leaves_of_mem_afterSuffix h)
  · cases h

/-! ## Amounts -/

/-- The text of an amount: it begins with its dollar or sign, has one dollar, and consists of
characters of amounts. -/
structure IsWritten (t : Text) : Prop where
  head : ∃ c, t.head? = some c ∧ (c = '$' ∨ c = '-')
  count : t.count '$' = 1
  all : ∀ c ∈ t, isAmountChar c

theorem IsWritten.dollar {t : Text} (h : IsWritten t) : '$' ∈ t :=
  List.count_pos_iff.1 (by rw [h.count]; exact Nat.one_pos)

/-- The one dollar of an amount parts it. -/
theorem IsWritten.exists_split {t : Text} (h : IsWritten t) :
    ∃ x y, t = x ++ '$' :: y ∧ '$' ∉ x ∧ '$' ∉ y := by
  obtain ⟨x, y, rfl⟩ := List.append_of_mem h.dollar
  have hcount := h.count
  rw [List.count_append, List.count_cons_self] at hcount
  exact ⟨x, y, rfl, List.count_eq_zero.1 (by omega), List.count_eq_zero.1 (by omega)⟩

theorem all_of_figure {u w : Text} (hu : u.all isAmountChar) (hw : ∀ c ∈ w, isFigureChar c) :
    ∀ c ∈ u ++ w, isAmountChar c := by
  refine List.forall_mem_append.2 ⟨List.all_eq_true.1 hu, fun c hc => ?_⟩
  exact (Bool.and_eq_true_iff.1 (hw c hc)).1

theorem count_of_figure {u w : Text} (hu : u.count '$' = 1) (hw : ∀ c ∈ w, isFigureChar c) :
    (u ++ w).count '$' = 1 := by
  have hw : w.count '$' = 0 := List.count_eq_zero.2 fun hm => absurd (hw '$' hm) (by decide)
  rw [List.count_append, hu, hw]

theorem afterAmount?_eq_none (before : Option Char) {s : Text} (hdollar : ∀ t, s ≠ '$' :: t)
    (hminus : ∀ t, s ≠ '-' :: '$' :: t) : afterAmount? before s = none := by
  unfold afterAmount?
  split
  · exact absurd rfl (hminus _)
  · exact absurd rfl (hdollar _)
  · rfl

/-- Only a backslash before a text matters. -/
theorem afterAmount?_congr {before before' : Option Char}
    (h : before = some '\\' ↔ before' = some '\\') (s : Text) :
    afterAmount? before s = afterAmount? before' s := by
  unfold afterAmount?
  simp only [h]

/-- Any character before a text but a backslash is as good as none. -/
theorem afterAmount?_eq_of_ne {before : Option Char} (h : before ≠ some '\\') (s : Text) :
    afterAmount? before s = afterAmount? none s :=
  afterAmount?_congr (iff_of_false h (Option.some_ne_none _).symm) s

/-- An amount begins with its dollar or its sign. -/
theorem head_of_afterAmount? {before : Option Char} (h : afterAmount? before s = some t) :
    s.head? = some '$' ∨ s.head? = some '-' := by
  unfold afterAmount? at h
  split at h
  · exact .inr rfl
  · exact .inl rfl
  · cases h

theorem isSuffix_of_afterAmount? {before : Option Char} (h : afterAmount? before s = some t) :
    t <:+ s := by
  cases s with
  | nil => cases h
  | cons c s => exact (suffix_of_afterAmount? h).trans (List.suffix_cons c s)

/-- **What is read as an amount is written as one.** -/
theorem isWritten_of_afterAmount? {before : Option Char}
    (h : afterAmount? before (t ++ s) = some s) : IsWritten t := by
  have hback : ∀ u v w : Text, t ++ s = u ++ v → v = w ++ s → t = u ++ w := by
    rintro u v w hu rfl
    exact List.append_cancel_right (hu.trans (List.append_assoc ..).symm)
  unfold afterAmount? at h
  split at h
  · next u hu =>
    obtain ⟨w, hw, hall⟩ := leaves_of_mem_afterGrouped (List.mem_of_find?_eq_some h)
    rw [hback ['-', '$'] u w hu hw]
    exact ⟨⟨'-', rfl, .inr rfl⟩, count_of_figure (by decide) hall, all_of_figure (by decide) hall⟩
  · next u hu =>
    split at h
    · cases h
    · have hleaves : Leaves isFigureChar u s := by
        rcases List.mem_append.1 (List.mem_of_find?_eq_some h) with h | h
        · exact leaves_of_mem_afterGrouped h
        · exact leaves_of_mem_afterPlain h
      obtain ⟨w, hw, hall⟩ := hleaves
      rw [hback ['$'] u w hu hw]
      exact ⟨⟨'$', rfl, .inl rfl⟩, count_of_figure (by decide) hall, all_of_figure (by decide) hall⟩
  · cases h

end

/-! ## Ranges -/

/-- What is dropped at the front of a text is a space or a tab. -/
theorem exists_dropSpace (s : Text) :
    ∃ x, s = x ++ dropSpace s ∧ ∀ c ∈ x, c = ' ' ∨ c = '\t' := by
  cases s with
  | nil => exact ⟨[], rfl, by simp⟩
  | cons c s =>
    rw [dropSpace]
    split
    · next hc => exact ⟨[c], rfl, by simpa using hc⟩
    · exact ⟨[], rfl, by simp⟩

theorem front_append_left (t s : Text) : front (t ++ s) s = t := by
  rw [front, List.length_append, Nat.add_sub_cancel, List.take_left]

theorem recogniser_eq_none_iff {before : Option Char} {s : Text} :
    recogniser before s = none ↔ afterAmount? before s = none := by
  cases h : afterAmount? before s <;> simp [recogniser, h]

/-- What an amount or a range is taken off from: the amount, or the left side, the dash with the
space around it, and the right side. -/
theorem exists_of_recogniser {before : Option Char} {s : Text} {ps : List Piece}
    (h : recogniser before s = some ps) :
    (∃ t rest, s = t ++ rest ∧ afterAmount? before s = some rest ∧ ps = [.found t] ∧
      ∀ right, afterDash? rest = some right → afterAmount? none right = none) ∨
    ∃ t gap t' rest, s = t ++ (gap ++ (t' ++ rest)) ∧
      afterAmount? before s = some (gap ++ (t' ++ rest)) ∧
      afterDash? (gap ++ (t' ++ rest)) = some (t' ++ rest) ∧
      afterAmount? none (t' ++ rest) = some rest ∧
      ps = .found t :: Piece.keep gap ++ [.found t'] := by
  simp only [recogniser, Option.bind_eq_bind, Option.bind_eq_some_iff, Option.some.injEq] at h
  obtain ⟨rest, hleft, rfl⟩ := h
  obtain ⟨t, rfl⟩ := isSuffix_of_afterAmount? hleft
  rw [front_append_left]
  cases hdash : afterDash? rest with
  | none => exact .inl ⟨t, rest, rfl, hleft, rfl, by simp [hdash]⟩
  | some right =>
    obtain ⟨gap, rfl⟩ := suffix_of_afterDash? hdash
    cases hright : afterAmount? none right with
    | none => exact .inl ⟨t, _, rfl, hleft, by simp [hright], by simpa [hdash] using hright⟩
    | some rest' =>
      obtain ⟨t', rfl⟩ := isSuffix_of_afterAmount? hright
      refine .inr ⟨t, gap, t', rest', rfl, hleft, hdash, hright, ?_⟩
      simp [hright, front_append_left]

/-! ## Amounts in a text -/

/-- What holds of every amount that is read, with the text that follows it, holds of every amount
found in a text. -/
theorem placed_amounts_of {P : Text → Text → Prop}
    (h : ∀ before t rest, afterAmount? before (t ++ rest) = some rest → P t rest) (s : Text) :
    Piece.Placed (fun _ => P) [] (amounts s) := by
  refine Text.placed_cut honest_recogniser (fun x u v ps hps hu => ?_) s
  obtain ⟨t, rest, hs, hleft, rfl, -⟩ | ⟨t, gap, t', rest, hs, hleft, -, hright, rfl⟩ :=
    exists_of_recogniser hps
  · obtain rfl : t = u := by simpa [Piece.source] using hu
    obtain rfl : v = rest := List.append_cancel_left hs
    exact Piece.placed_found_cons.2 ⟨h _ _ _ hleft, Piece.placed_nil⟩
  · obtain rfl : t ++ (gap ++ t') = u := by simpa [Piece.source] using hu
    obtain rfl : v = rest := by simpa using hs
    rw [hs] at hleft
    rw [List.cons_append, Piece.placed_found_cons, Piece.placed_append]
    refine ⟨?_, Piece.placed_keep, Piece.placed_found_cons.2 ⟨h _ _ _ hright, Piece.placed_nil⟩⟩
    simpa [Piece.source] using h _ _ _ hleft

/-- **Every amount found in a text is written as one.** -/
theorem placed_amounts (s : Text) : Piece.Placed (fun _ t _ => IsWritten t) [] (amounts s) :=
  placed_amounts_of (fun _ _ _ h => isWritten_of_afterAmount? h) s

end MarkdownPrep.Amount
