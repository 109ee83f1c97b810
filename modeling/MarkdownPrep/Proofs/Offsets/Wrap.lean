import MarkdownPrep.Offsets.Wrap
import MarkdownPrep.Proofs.Offsets.Bytes
import MarkdownPrep.Proofs.Wrap.Blind

/-!
# Wrapping by offset

A search from one expression on to the next one (`captureFrom`) takes the expressions that a cut of
the text takes, which looks at every place (`captured_captureFrom`). The search never misses one: it
goes on where an expression ends, and none begins there, as an expression ends before white space
(`atBreak_of_candidate`) and begins with something else (`exists_head_of_candidate`).
-/

namespace MarkdownPrep.Offsets

open Text Wrap Stash

/-- The first candidate of the text `t` that stands after `x`: its expression `e` stands between `k`
and `v`, the candidate covers `near`, and the text is cut accordingly. -/
structure Captured (candidate : Text → Option Nat) (sentinel : Char) (x t : Text) (cap : Capture)
    (k e v near : Text) : Prop where
  split : t = k ++ (e ++ v)
  whole : cap.whole.text? (x ++ t) = some near
  expr : cap.expr = ⟨utf8Size (x ++ k), utf8Size (x ++ k ++ e)⟩
  ne_nil : e ≠ []
  atBreak : atBreak v
  cut : cutAfter (Wrap.recogniser candidate sentinel) x t =
    Piece.keep k ++ (expressionPieces sentinel near e ++
      cutAfter (Wrap.recogniser candidate sentinel) (x ++ k ++ e) v)

theorem Captured.cons {candidate : Text → Option Nat} {sentinel c : Char} {x t : Text}
    {cap : Capture} {k e v near : Text}
    (hnone : Wrap.recogniser candidate sentinel x.getLast? (c :: t) = none)
    (h : Captured candidate sentinel (x ++ [c]) t cap k e v near) :
    Captured candidate sentinel x (c :: t) cap (c :: k) e v near where
  split := congrArg (c :: ·) h.split
  whole := by simpa using h.whole
  expr := by simpa using h.expr
  ne_nil := h.ne_nil
  atBreak := h.atBreak
  cut := by
    rw [cutAfter_of_none hnone, h.cut]
    simp [Piece.keep]

theorem recogniser_eq_none_of {candidate : Text → Option Nat} {sentinel : Char}
    {before : Option Char} {s : Text} (h : before.all isBlank → candidate s = none) :
    Wrap.recogniser candidate sentinel before s = none := by
  rw [Wrap.recogniser]
  split
  · next hb => rw [h hb, Option.map_none]
  · rfl

section
variable {candidate : Text → Option Nat} (h : candidate ∈ candidates) {sentinel : Char}
include h

theorem candidate_eq_none {s : Text} (hs : atBreak s) : candidate s = none := by
  refine Option.eq_none_iff_forall_ne_some.2 fun n hn => ?_
  obtain ⟨c, u, rfl, hc⟩ := exists_head_of_candidate h hn
  exact hc hs

/-- A candidate after the white space `b`, or at the start of the text. -/
theorem captured_ofLength {x b s : Text} {n : Nat} (hn : candidate s = some n)
    (hx : (x ++ b).getLast?.all isBlank) (hb : (x ++ b).getLast?.toList = b)
    (hcut : cutAfter (Wrap.recogniser candidate sentinel) x (b ++ s) =
      Piece.keep b ++ cutAfter (Wrap.recogniser candidate sentinel) (x ++ b) s) :
    Captured candidate sentinel x (b ++ s) (Capture.ofLength (utf8Size x) (utf8Size (x ++ b)) s n)
      b (s.take n) (s.drop n) (b ++ s.take n ++ (s.drop n).take 1) where
  split := by rw [List.take_append_drop]
  whole := by
    have hsplit : b ++ s =
        b ++ s.take n ++ (s.drop n).take 1 ++ (s.drop n).drop 1 := by
      rw [List.append_assoc, List.take_append_drop, List.append_assoc, List.take_append_drop]
    have hslice := slice?_append x (b ++ s.take n ++ (s.drop n).take 1) ((s.drop n).drop 1)
    rw [← hsplit, ← List.append_assoc, ← List.append_assoc] at hslice
    simpa [Capture.ofLength, Extent.text?, Nat.add_assoc] using hslice
  expr := by rw [Capture.ofLength, utf8Size_append (x ++ b)]
  ne_nil := take_ne_nil_of_candidate h hn
  atBreak := atBreak_of_candidate h hn
  cut := by
    have hread : Wrap.recogniser candidate sentinel (x ++ b).getLast? (s.take n ++ s.drop n) =
        some (expressionPieces sentinel (b ++ s.take n ++ (s.drop n).take 1) (s.take n)) := by
      rw [List.take_append_drop, Wrap.recogniser, if_pos hx, hn, hb]
      rfl
    have hhonest := honest_recogniser (fun _ _ => take_ne_nil_of_candidate h) sentinel
    have hstep := cutAfter_of_some hhonest hread sources_expressionPieces
    rw [List.take_append_drop] at hstep
    rw [hcut, hstep]

/-- **The first candidate** is where the cut of a text takes the first expression. At the place
where the search begins, the cut takes none, unless it is the start of the text. -/
theorem captured_captureFrom (x t : Text)
    (hstart : x = [] ∨ Wrap.recogniser candidate sentinel x.getLast? t = none) :
    match captureFrom candidate (utf8Size x) t with
    | none => cutAfter (Wrap.recogniser candidate sentinel) x t = Piece.keep t
    | some cap => ∃ k e v near, Captured candidate sentinel x t cap k e v near := by
  induction t generalizing x with
  | nil =>
    rw [captureFrom, candidate_eq_none h rfl]
    cases utf8Size x <;> rfl
  | cons c t ih =>
    rw [captureFrom]
    by_cases hfirst : x = [] ∧ (candidate (c :: t)).isSome
    · obtain ⟨rfl, hsome⟩ := hfirst
      obtain ⟨n, hn⟩ := Option.isSome_iff_exists.1 hsome
      have hcaptured : Captured candidate sentinel [] ([] ++ c :: t) _ [] _ _ _ :=
        captured_ofLength h hn rfl rfl rfl
      simp only [utf8Size_nil, if_true, hn, Option.map_some, Option.some_or]
      exact ⟨_, _, _, _, hcaptured⟩
    have hatStart : (if utf8Size x = 0 then (candidate (c :: t)).map
        (Capture.ofLength (utf8Size x) (utf8Size x) (c :: t)) else none) = none := by
      by_cases hx : x = []
      · have hno : candidate (c :: t) = none := by simpa [hx] using hfirst
        rw [hno, Option.map_none, ite_self]
      · rw [if_neg (mt utf8Size_eq_zero_iff.1 hx)]
    have hnone : Wrap.recogniser candidate sentinel x.getLast? (c :: t) = none := by
      refine hstart.elim (fun hx => ?_) id
      have hno : candidate (c :: t) = none := by simpa [hx] using hfirst
      exact recogniser_eq_none_of fun _ => hno
    rw [hatStart, Option.none_or]
    by_cases hblank : isBlank c ∧ (candidate t).isSome
    · obtain ⟨hc, hsome⟩ := hblank
      obtain ⟨n, hn⟩ := Option.isSome_iff_exists.1 hsome
      have hcaptured : Captured candidate sentinel x ([c] ++ t) _ [c] _ _ _ :=
        captured_ofLength h hn (by simpa using hc) (by simp) (cutAfter_of_none hnone)
      simp only [hc, hn, if_true, Option.map_some, Option.some_or, ← utf8Size_concat]
      exact ⟨_, _, _, _, hcaptured⟩
    · have hatBlank : (if isBlank c then (candidate t).map
          (Capture.ofLength (utf8Size x) (utf8Size x + c.utf8Size) t) else none) = none := by
        by_cases hc : isBlank c
        · have hno : candidate t = none := by simpa [hc] using hblank
          rw [hno, Option.map_none, ite_self]
        · rw [if_neg hc]
      have hnext : Wrap.recogniser candidate sentinel (x ++ [c]).getLast? t = none :=
        recogniser_eq_none_of fun hc => by simpa [by simpa using hc] using hblank
      have hrest := ih (x ++ [c]) (.inr hnext)
      rw [hatBlank, Option.none_or, ← utf8Size_concat]
      cases hcap : captureFrom candidate (utf8Size (x ++ [c])) t with
      | none =>
        rw [hcap] at hrest
        dsimp only at hrest ⊢
        rw [cutAfter_of_none hnone, hrest]
        rfl
      | some cap =>
        rw [hcap] at hrest
        obtain ⟨k, e, v, near, hcaptured⟩ := hrest
        exact ⟨c :: k, e, v, near, hcaptured.cons hnone⟩

/-- **Wrapping by offset** from any place on. What stands before `k` is done with. -/
theorem wrapFrom?_eq (fuel : Nat) (u k t out : Text) (hfuel : t.length < fuel)
    (hstart : u ++ k = [] ∨ Wrap.recogniser candidate sentinel (u ++ k).getLast? t = none) :
    wrapFrom? candidate sentinel (u ++ k ++ t) fuel (utf8Size u) (utf8Size (u ++ k)) out =
      some (out ++ k ++ Piece.mapFound (fun t => '$' :: t ++ ['$'])
        (cutAfter (Wrap.recogniser candidate sentinel) (u ++ k) t)) := by
  induction fuel generalizing u k t out with
  | zero => omega
  | succ fuel ih =>
    have hat : At (u ++ k ++ t) (utf8Size (u ++ k)) t := ⟨u ++ k, rfl, rfl⟩
    have hcapture := captured_captureFrom h (u ++ k) t hstart
    rw [wrapFrom?, capture?, hat.from?, Option.map_some, Option.bind_eq_bind, Option.bind_some]
    cases hcap : captureFrom candidate (utf8Size (u ++ k)) t with
    | none =>
      rw [hcap] at hcapture
      have hrest : At (u ++ k ++ t) (utf8Size u) (k ++ t) := ⟨u, List.append_assoc u k t, rfl⟩
      dsimp only at hcapture ⊢
      rw [hcapture, hrest.from?, Piece.mapFound_keep, List.append_assoc out]
      rfl
    | some cap =>
      rw [hcap] at hcapture
      obtain ⟨k', e, v, near, hcaptured⟩ := hcapture
      obtain rfl := hcaptured.split
      have hexpr : cap.expr.text? (u ++ k ++ (k' ++ (e ++ v))) = some e := by
        rw [hcaptured.expr, ← List.append_assoc]
        exact slice?_append (u ++ k ++ k') e v
      have hafter : Wrap.recogniser candidate sentinel (u ++ k ++ k' ++ e).getLast? v = none :=
        recogniser_eq_none_of fun _ => candidate_eq_none h hcaptured.atBreak
      have hlength : v.length < fuel := by
        have := List.length_pos_iff.2 hcaptured.ne_nil
        simp at hfuel
        omega
      have hs : u ++ k ++ (k' ++ (e ++ v)) = u ++ k ++ k' ++ e ++ v := by simp
      dsimp only
      rw [hcaptured.whole, hexpr, hcaptured.expr, hcaptured.cut, expressionPieces, hs]
      simp only [Option.bind_eq_bind, Option.bind_some]
      by_cases hq : qualifies sentinel near (trim e)
      · obtain ⟨gap, hgap⟩ := trimEnd_prefix e
        have hdrop : e.drop (trimEnd e).length = gap := by
          have hleft : (trimEnd e ++ gap).drop (trimEnd e).length = gap := List.drop_left
          rwa [hgap] at hleft
        have hplace : u ++ k ++ k' ++ trimEnd e ++ gap = u ++ k ++ k' ++ e := by
          rw [List.append_assoc _ _ gap, hgap]
        have hbefore : slice? (utf8Size u) (utf8Size (u ++ k ++ k')) (u ++ k ++ k' ++ e ++ v) =
            some (k ++ k') := by simpa using slice?_append u (k ++ k') (e ++ v)
        have hrest := ih (u ++ k ++ k' ++ trimEnd e) gap v
          (out ++ (k ++ k') ++ '$' :: trimEnd e ++ ['$']) hlength (.inr (hplace ▸ hafter))
        rw [hplace, utf8Size_append _ (trimEnd e)] at hrest
        rw [if_pos hq, if_pos hq, hbefore, Option.bind_some, hrest, hdrop]
        simp
      · have hplace : u ++ (k ++ k' ++ e) = u ++ k ++ k' ++ e := by simp
        have hrest := ih u (k ++ k' ++ e) v out hlength (.inr (hplace ▸ hafter))
        rw [hplace] at hrest
        rw [if_neg hq, if_neg hq, hrest]
        simp

/-- **Wrapping the candidates of one kind by offset** wraps them. -/
theorem wrapAll?_eq (s : Text) :
    wrapAll? candidate sentinel s = some (wrapAll candidate sentinel s) := by
  have hlength : s.length < s.bytes.length + 1 := by
    rw [length_bytes]
    exact Nat.lt_succ_of_le (length_le_utf8Size s)
  exact wrapFrom?_eq h (s.bytes.length + 1) [] [] s [] hlength (.inl rfl)

end

/-- **Wrapping bare math by offset** wraps the bare math of the text. -/
theorem wrapBareMath?_eq (sentinel : Char) (s : Text) :
    wrapBareMath? sentinel s = some (wrapBareMath sentinel s) := by
  have key : ∀ l ⊆ candidates, ∀ s : Text,
      l.foldlM (fun s candidate => wrapAll? candidate sentinel s) s =
        some (l.foldl (fun s candidate => wrapAll candidate sentinel s) s) := by
    intro l
    induction l with
    | nil => exact fun _ _ => rfl
    | cons candidate l ih =>
      intro hl s
      obtain ⟨hmem, hl⟩ := List.cons_subset.1 hl
      rw [List.foldlM_cons, wrapAll?_eq hmem, List.foldl_cons]
      exact ih hl _
  exact key candidates (List.Subset.refl _) s

end MarkdownPrep.Offsets
