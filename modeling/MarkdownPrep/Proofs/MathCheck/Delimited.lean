import Mathlib.Data.List.TakeWhile
import MarkdownPrep.MathCheck
import MarkdownPrep.Proofs.Dollar.Pair

/-!
# What the quick check for math finds

In a text without amounts the check finds exactly the stretches that are not empty and stand in
double dollars, in brackets, in parentheses, or between two neighbouring dollars of a line that are
not escaped (`HoldsDelimited`, `holdsMath_iff_holdsDelimited`). A dollar span is such a stretch
unless there is an escaped dollar in it, so the check finds every span without one
(`holdsMath_of_spans`). A span with an escaped dollar in it is missed
(`holdsMath_eq_false_of_escaped`): the check does not look beyond the next dollar.
-/

namespace MarkdownPrep

namespace Text

/-! ## Some place of a text -/

section
variable {p : Option Char → Text → Bool} {x s : Text}

theorem anyPlace_iff : anyPlace p x.getLast? s ↔
    ∃ u c y, s = u ++ c :: y ∧ p (x ++ u).getLast? (c :: y) := by
  induction s generalizing x with
  | nil => simp [anyPlace]
  | cons d s ih =>
    have hlast : some d = (x ++ [d]).getLast? := List.getLast?_concat.symm
    rw [anyPlace, Bool.or_eq_true, hlast, ih]
    constructor
    · rintro (h | ⟨u, c, y, rfl, h⟩)
      · exact ⟨[], d, s, rfl, by rwa [List.append_nil]⟩
      · exact ⟨d :: u, c, y, rfl, by simpa using h⟩
    · rintro ⟨u, c, y, hs, h⟩
      cases u with
      | nil =>
        obtain ⟨rfl, rfl⟩ := List.cons.inj hs
        exact .inl (by simpa using h)
      | cons e u =>
        obtain ⟨rfl, rfl⟩ := List.cons.inj hs
        exact .inr ⟨u, c, y, rfl, by simpa using h⟩

theorem anyPlace_none_iff : anyPlace p none s ↔
    ∃ u c y, s = u ++ c :: y ∧ p u.getLast? (c :: y) :=
  anyPlace_iff (x := [])

end

/-- Where a place is asked whether one of some texts stands there, a text is asked whether it has
one of them as a part. -/
theorem anyPlace_iff_infix {ι : Type} {p : Option Char → Text → Bool} {P : ι → Prop}
    {f : ι → Text} (hp : ∀ b t, p b t ↔ ∃ i, P i ∧ f i <+: t) (hne : ∀ i, f i ≠ [])
    {s : Text} : anyPlace p none s ↔ ∃ i, P i ∧ f i <:+: s := by
  rw [anyPlace_none_iff]
  constructor
  · rintro ⟨u, c, y, rfl, h⟩
    obtain ⟨i, hi, hpart⟩ := (hp _ _).1 h
    exact ⟨i, hi, hpart.isInfix.trans (List.suffix_append u _).isInfix⟩
  · rintro ⟨i, hi, u, v, rfl⟩
    obtain ⟨c, w, hw⟩ := List.exists_cons_of_ne_nil (hne i)
    exact ⟨u, c, w ++ v, by simp [hw], (hp _ _).2 ⟨i, hi, v, by rw [hw]; rfl⟩⟩

theorem hasPart_iff {part s : Text} : hasPart part s ↔ part <:+: s := by
  cases part with
  | nil => simp [hasPart]
  | cons d part =>
    have hplace := anyPlace_iff_infix (p := fun _ t => (d :: part).isPrefixOf t)
      (P := fun _ => True) (f := fun _ : Unit => d :: part) (s := s) (fun _ _ => by simp)
      (fun _ => List.cons_ne_nil _ _)
    rw [hasPart, List.isEmpty_cons, Bool.false_or, hplace]
    simp

end Text

namespace MathCheck

open Dollar

/-! ## Delimited stretches -/

/-- Two dollars with a stretch between them that is not empty: the next dollar after the first one,
on the same line, is the second, and neither is escaped. -/
structure Neighbours (x body : Text) : Prop where
  unescaped : x.getLast? ≠ some '\\'
  ne_nil : body ≠ []
  noDollar : '$' ∉ body
  oneLine : '\n' ∉ body
  closes : body.getLast? ≠ some '\\'

/-- A stretch that is not empty stands between delimiters of math. -/
inductive HoldsDelimited (s : Text) : Prop where
  | block {body : Text} (hne : body ≠ []) (h : "$$".toList ++ body ++ "$$".toList <:+: s)
  | dollars {x body y : Text} (hs : s = x ++ (span body ++ y)) (h : Neighbours x body)
  | brackets {body : Text} (hne : body ≠ []) (h : "\\[".toList ++ body ++ "\\]".toList <:+: s)
  | parentheses {body : Text} (hne : body ≠ []) (hparen : ')' ∉ body)
      (h : "\\(".toList ++ body ++ "\\)".toList <:+: s)

section
variable {first last s t : Text} {before : Option Char}

theorem encloses_iff (hlast : last ≠ []) : encloses first last before t ↔
    ∃ body, body ≠ [] ∧ first ++ body ++ last <+: t := by
  rw [encloses, Bool.and_eq_true, List.isPrefixOf_iff_prefix, Text.hasPart_iff]
  constructor
  · rintro ⟨⟨v, rfl⟩, u, w, h⟩
    rw [List.drop_append, List.drop_of_length_le (Nat.le_succ _), List.nil_append,
      Nat.add_sub_cancel_left] at h
    cases v with
    | nil => simp [hlast] at h
    | cons d v =>
      obtain rfl : v = u ++ last ++ w := h.symm
      exact ⟨d :: u, List.cons_ne_nil d u, w, by simp⟩
  · rintro ⟨body, hne, w, rfl⟩
    obtain ⟨d, body, rfl⟩ := List.exists_cons_of_ne_nil hne
    refine ⟨⟨d :: body ++ last ++ w, by simp⟩, body, w, ?_⟩
    simp [List.drop_append]

theorem anyPlace_encloses_iff (hfirst : first ≠ []) (hlast : last ≠ []) :
    Text.anyPlace (encloses first last) none s ↔
      ∃ body, body ≠ [] ∧ first ++ body ++ last <:+: s :=
  Text.anyPlace_iff_infix (fun _ _ => encloses_iff hlast) (fun _ => by simp [hfirst])

theorem pairedDollar_iff {x : Text} : pairedDollar x.getLast? t ↔
    ∃ body y, t = span body ++ y ∧ Neighbours x body := by
  constructor
  · intro h
    unfold pairedDollar at h
    split at h
    · next t =>
      simp only [Bool.and_eq_true, decide_eq_true_eq] at h
      obtain ⟨⟨⟨hbefore, hne⟩, hnext⟩, hlast⟩ := h
      rw [Text.drop_length_takeWhile] at hnext
      obtain ⟨y, hy⟩ := List.head?_eq_some_iff.1 hnext
      have hsplit := List.takeWhile_append_dropWhile
        (p := fun c => c ≠ '$' && c ≠ '\n') (l := t)
      have hbody : ∀ c ∈ t.takeWhile (fun c => c ≠ '$' && c ≠ '\n'), c ≠ '$' ∧ c ≠ '\n' :=
        fun c hc => by simpa using List.mem_takeWhile_imp hc
      rw [hy] at hsplit
      refine ⟨_, y, ?_, hbefore, hne, fun hm => (hbody _ hm).1 rfl, fun hm => (hbody _ hm).2 rfl,
        hlast⟩
      rw [span, List.append_assoc, List.cons_append, List.singleton_append, hsplit]
    · cases h
  · rintro ⟨body, y, rfl, h⟩
    have hspan : span body ++ y = '$' :: (body ++ '$' :: y) := by simp [span]
    have htake : (body ++ '$' :: y).takeWhile (fun c => c ≠ '$' && c ≠ '\n') = body := by
      rw [List.takeWhile_append_of_pos fun c hc => ?_]
      · simp
      · simp [ne_of_mem_of_not_mem hc h.noDollar, ne_of_mem_of_not_mem hc h.oneLine]
    rw [hspan, pairedDollar]
    simp only [htake, List.drop_left]
    simp [h.unescaped, h.ne_nil, h.closes]

theorem anyPlace_pairedDollar_iff : Text.anyPlace pairedDollar none s ↔
    ∃ x body y, s = x ++ (span body ++ y) ∧ Neighbours x body := by
  rw [Text.anyPlace_none_iff]
  constructor
  · rintro ⟨x, c, t, rfl, h⟩
    obtain ⟨body, y, hsplit, hpair⟩ := pairedDollar_iff.1 h
    exact ⟨x, body, y, by rw [hsplit], hpair⟩
  · rintro ⟨x, body, y, rfl, hpair⟩
    exact ⟨x, '$', body ++ '$' :: y, by simp [span],
      pairedDollar_iff.2 ⟨body, y, by simp [span], hpair⟩⟩

theorem parenthesised_iff : parenthesised before t ↔
    ∃ body, (body ≠ [] ∧ ')' ∉ body) ∧ "\\(".toList ++ body ++ "\\)".toList <+: t := by
  constructor
  · intro h
    unfold parenthesised at h
    split at h
    · next t =>
      simp only [Bool.and_eq_true, decide_eq_true_eq] at h
      obtain ⟨⟨hlen, htwo⟩, hlast⟩ := h
      obtain ⟨y, hy⟩ := Text.takeWhile_ne_append_prefix (Nat.ne_of_gt hlen)
      obtain ⟨body, hbody⟩ := List.getLast?_eq_some_iff.1 hlast
      have hparen : ')' ∉ t.takeWhile (· ≠ ')') := fun hm => by
        simpa using List.mem_takeWhile_imp hm
      rw [hbody] at hy htwo hparen
      refine ⟨body, ⟨?_, fun hm => hparen (List.mem_append_left _ hm)⟩, y, ?_⟩
      · rintro rfl
        simp at htwo
      · rw [← hy]
        simp
    · cases h
  · rintro ⟨body, ⟨hne, hparen⟩, y, rfl⟩
    have hsplit : "\\(".toList ++ body ++ "\\)".toList ++ y =
        '\\' :: '(' :: ((body ++ ['\\']) ++ ')' :: y) := by simp
    have htake : ((body ++ ['\\']) ++ ')' :: y).takeWhile (· ≠ ')') = body ++ ['\\'] := by
      rw [List.takeWhile_append_of_pos fun c hc => ?_]
      · simp
      · have hmem : ')' ∉ body ++ ['\\'] := by simp [hparen]
        simp [ne_of_mem_of_not_mem hc hmem]
    have hlen : 1 ≤ body.length := List.length_pos_iff.2 hne
    rw [hsplit, parenthesised]
    simp only [htake]
    simpa using hlen

theorem anyPlace_parenthesised_iff : Text.anyPlace parenthesised none s ↔
    ∃ body, (body ≠ [] ∧ ')' ∉ body) ∧ "\\(".toList ++ body ++ "\\)".toList <:+: s :=
  Text.anyPlace_iff_infix (fun _ _ => parenthesised_iff) (fun _ => by simp)

end

/-! ## Texts without amounts -/

/-- True when a dollar amount stands somewhere in a text. -/
def holdsAmount (s : Text) : Bool :=
  Text.anyPlace (fun before t => (amountRecogniser before t).isSome) none s

theorem dropAmounts_eq_self {s : Text} (h : holdsAmount s = false) : dropAmounts s = s := by
  have hcut : Text.cut amountRecogniser s = Piece.keep s := by
    refine Text.cut_eq_keep fun y c w hs => Option.not_isSome_iff_eq_none.1 fun hsome => ?_
    have hfound : holdsAmount s := Text.anyPlace_none_iff.2 ⟨y, c, w, hs, hsome⟩
    rw [h] at hfound
    cases hfound
  rw [dropAmounts, hcut, Piece.mapFound_keep]

/-- **The check finds what is delimited**, and nothing else. -/
theorem holdsMath_iff_holdsDelimited {s : Text} (h : holdsAmount s = false) :
    holdsMath s ↔ HoldsDelimited s := by
  rw [holdsMath, dropAmounts_eq_self h]
  simp only [Bool.or_eq_true, anyPlace_pairedDollar_iff, anyPlace_parenthesised_iff]
  rw [anyPlace_encloses_iff (by decide) (by decide), anyPlace_encloses_iff (by decide) (by decide)]
  constructor
  · rintro (((⟨body, hne, hb⟩ | ⟨x, body, y, hs, hb⟩) | ⟨body, hne, hb⟩) |
      ⟨body, ⟨hne, hparen⟩, hb⟩)
    · exact .block hne hb
    · exact .dollars hs hb
    · exact .brackets hne hb
    · exact .parentheses hne hparen hb
  · rintro (⟨hne, hb⟩ | ⟨hs, hb⟩ | ⟨hne, hb⟩ | ⟨hne, hparen, hb⟩)
    · exact .inl (.inl (.inl ⟨_, hne, hb⟩))
    · exact .inl (.inl (.inr ⟨_, _, _, hs, hb⟩))
    · exact .inl (.inr ⟨_, hne, hb⟩)
    · exact .inr ⟨_, ⟨hne, hparen⟩, hb⟩

/-! ## Dollar spans -/

/-- A dollar span without a dollar in it is between two neighbouring dollars. -/
theorem holdsDelimited_of_span {s t : Text} (ht : t ∈ Piece.founds (spans s))
    (hdollar : '$' ∉ interior t) : HoldsDelimited s := by
  obtain ⟨ps, qs, hps⟩ := Piece.exists_append_of_mem_founds ht
  obtain ⟨body, rfl, hpairs⟩ := placed_pairs s ps t qs hps
  have hsources := congrArg Piece.sources hps
  rw [sources_spans, Piece.sources_append, Piece.sources_cons, Piece.source] at hsources
  rw [interior_span] at hdollar
  have hne : body ≠ [] := by
    rintro rfl
    exact hpairs.opens rfl
  exact .dollars hsources ⟨hpairs.unescaped, hne, hdollar, hpairs.oneLine, hpairs.closes⟩

/-- **In a text without amounts the check finds what is delimited**, so that it misses no dollar
span but one that has an escaped dollar in it. -/
theorem holdsMath_of_spans {s : Text} (h : holdsAmount s = false) :
    (holdsMath s ↔ HoldsDelimited s) ∧
      ((∃ t ∈ Piece.founds (spans s), '$' ∉ interior t) → holdsMath s) :=
  ⟨holdsMath_iff_holdsDelimited h, fun ⟨_, ht, hdollar⟩ =>
    (holdsMath_iff_holdsDelimited h).2 (holdsDelimited_of_span ht hdollar)⟩

theorem holdsMath_of_spans_of_two :
    holdsAmount "$a \\$ b$ $x$".toList = false ∧
      (holdsMath "$a \\$ b$ $x$".toList ↔ HoldsDelimited "$a \\$ b$ $x$".toList) ∧
      (∃ t ∈ Piece.founds (spans "$a \\$ b$ $x$".toList), '$' ∉ interior t) ∧
      holdsMath "$a \\$ b$ $x$".toList := by
  have hfree : holdsAmount "$a \\$ b$ $x$".toList = false := by decide
  have hspan : ∃ t ∈ Piece.founds (spans "$a \\$ b$ $x$".toList), '$' ∉ interior t :=
    ⟨"$x$".toList, by decide, by decide⟩
  exact ⟨hfree, (holdsMath_of_spans hfree).1, hspan, (holdsMath_of_spans hfree).2 hspan⟩

/-- A span with an escaped dollar in it is missed. -/
theorem holdsMath_eq_false_of_escaped :
    holdsAmount "$a \\$ b$".toList = false ∧ Piece.founds (spans "$a \\$ b$".toList) ≠ [] ∧
      holdsMath "$a \\$ b$".toList = false := by
  decide

end MathCheck

end MarkdownPrep
