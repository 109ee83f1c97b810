import MarkdownPrep.Dollar.Literal
import MarkdownPrep.Proofs.Dollar.Pair

/-!
# Escaping literal dollars settles every span

The signs of math leave a single decimal digit as the only literal interior (`readsAsMath_eq`). A
span whose dollars are escaped is no span any more, and the others are the spans that they were:
what stands next to their dollars stays the same (`spans_mapFound`). So what is escaped once is
settled (`escapeLiteral_settles`).
-/

namespace MarkdownPrep

/-- No decimal digit is white space. -/
theorem not_isBlank_of_isDecimalDigit {c : Char} (h : isDecimalDigit c) : isBlank c = false := by
  have hapart : ∀ z ∈ decimalZeros, ∀ r ∈ blankRanges, r.2 < z ∨ z + 10 ≤ r.1 := by decide
  have hin : ∃ z ∈ decimalZeros, z ≤ c.toNat ∧ c.toNat < z + 10 := by
    rw [isDecimalDigit, Bool.or_eq_true] at h
    rcases h with h | h
    · exact ⟨48, by decide, (Char.isDigit_iff_toNat.1 h).1,
        Nat.lt_succ_of_le (Char.isDigit_iff_toNat.1 h).2⟩
    · simpa using h
  obtain ⟨z, hz, hlo, hhi⟩ := hin
  refine List.any_eq_false.2 fun r hr hblank => ?_
  have := hapart z hz r hr
  simp only [Bool.and_eq_true, decide_eq_true_eq] at hblank
  omega

namespace Dollar

/-! ## What is literal -/

/-- True for a single decimal digit. -/
def isLoneDigit : Text → Bool
  | [c] => isDecimalDigit c
  | _ => false

theorem hasMathSign_singleton {c : Char} (h : isDecimalDigit c) : hasMathSign [c] = false := by
  have hbackslash : c ≠ '\\' := by
    rintro rfl
    exact absurd h (by decide)
  have hoperator : c ∉ operators := by
    intro hc
    have hnone : operators.any isDecimalDigit = false := by decide
    exact List.any_eq_false.1 hnone c hc h
  have hmacro : ∀ macros : List Text, (∀ m ∈ macros, ∃ n, m = '\\' :: n) →
      macros.any (Text.hasPart · [c]) = false := by
    intro macros hmacros
    refine List.any_eq_false.2 fun m hm => ?_
    obtain ⟨n, rfl⟩ := hmacros m hm
    simp [Text.hasPart, Text.anyPlace, Ne.symm hbackslash]
  have hgreek := hmacro greekMacros (by simp [greekMacros])
  have hfunction := hmacro functionMacros (by simp [functionMacros])
  simp [hasMathSign, mixesLettersAndDigits, Text.anyPlace, precedes, hgreek, hfunction, hoperator,
    Ne.symm hbackslash]

/-- **The signs of math are missing from a single digit only.** -/
theorem readsAsMath_eq (s : Text) : readsAsMath s = !isLoneDigit s := by
  rcases s with _ | ⟨c, _ | ⟨d, s⟩⟩
  · rfl
  · rw [readsAsMath, isLoneDigit]
    by_cases hdigit : isDecimalDigit c
    · have hblank := not_isBlank_of_isDecimalDigit hdigit
      simp [hasMathSign_singleton hdigit, Text.trim, Text.trimStart, Text.trimEnd, hblank,
        isPlainAmount, Amount.afterGroups, isCents, hdigit]
    · by_cases hblank : isBlank c
      · simp [Text.trim, Text.trimStart, Text.trimEnd, hblank, hdigit]
      · simp [Text.trim, Text.trimStart, Text.trimEnd, hblank, hdigit, isPlainAmount]
  · have hlong : 1 < (c :: d :: s).length := by simp
    simp [readsAsMath, hasMathSign, isLoneDigit]

/-- True for the spans that are escaped: those with a literal interior and without the sentinel. -/
def isLiteral (sentinel : Char) (t : Text) : Bool :=
  !t.contains sentinel && !readsAsMath (interior t)

/-- A span with its dollars escaped. -/
def escaped (t : Text) : Text := "\\$".toList ++ interior t ++ "\\$".toList

/-- A span with its dollars escaped if it satisfies `p`. -/
def escapeIf (p : Text → Bool) (t : Text) : Text := if p t then escaped t else t

theorem escapeLiteral_eq (S : Char) (s : Text) :
    escapeLiteral S s = Piece.mapFound (escapeIf (isLiteral S)) (spans s) := by
  rw [escapeLiteral, openSpans, Piece.mapFound_retain]
  refine Piece.mapFound_congr fun t _ => ?_
  by_cases hS : S ∈ t <;> cases hmath : readsAsMath (interior t) <;>
    simp [escapeIf, isLiteral, settle, escaped, hS, hmath]

/-- A text whose spans all read as math stays as it is. -/
theorem escapeLiteral_eq_self {S : Char} {s : Text}
    (h : ∀ span ∈ Piece.founds (openSpans S s), readsAsMath (interior span)) :
    escapeLiteral S s = s := by
  have hsettle : Piece.mapFound settle (openSpans S s) =
      Piece.mapFound (fun t => t) (openSpans S s) :=
    Piece.mapFound_congr fun t ht => by rw [settle, if_pos (h t ht)]
  rw [escapeLiteral, hsettle, Piece.mapFound_id, sources_openSpans]

/-! ## The spans after some were escaped -/

section
variable {p : Text → Bool} {x x' s : Text} {ps : List Piece}

theorem escaped_span (body : Text) :
    escaped (span body) = '\\' :: '$' :: (body ++ ['\\', '$']) := by
  rw [escaped, interior_span]
  rfl

theorem getLast?_append_escaped (x t : Text) : (x ++ escaped t).getLast? = some '$' := by
  have hsplit : x ++ escaped t = x ++ ("\\$".toList ++ interior t ++ ['\\']) ++ ['$'] := by
    simp [escaped]
  rw [hsplit]
  exact List.getLast?_concat

/-- The dollars of an escaped span all stand after a backslash. -/
theorem getLast?_of_escaped_eq {body y u w : Text} (h : Pairs x body y)
    (hsplit : escaped (span body) = u ++ '$' :: w) : u.getLast? = some '\\' := by
  rw [escaped_span] at hsplit
  rcases u with _ | ⟨c, _ | ⟨d, u⟩⟩
  · cases hsplit
  · obtain ⟨rfl, -⟩ := List.cons.inj hsplit
    rfl
  · obtain ⟨rfl, rfl, hrest⟩ : '\\' = c ∧ '$' = d ∧ body ++ ['\\', '$'] = u ++ '$' :: w := by
      simpa using hsplit
    suffices hlast : u.getLast? = some '\\' by simp [List.getLast?_cons, hlast]
    rcases List.append_eq_append_iff.1 hrest with ⟨z, rfl, hz⟩ | ⟨z, hbody, hz⟩
    · -- the second of the dollars around the interior
      rcases z with _ | ⟨e, z⟩
      · cases hz
      · obtain ⟨rfl, hz⟩ := List.cons.inj hz
        obtain rfl : z = [] := by
          cases z with
          | nil => rfl
          | cons f z => simp at hz
        exact List.getLast?_concat
    · cases z with
      | nil => cases hz
      | cons e z =>
        obtain ⟨rfl, -⟩ := List.cons.inj hz
        exact h.between u z hbody

/-- The pieces of a text with the escaped spans kept. -/
def settled (p : Text → Bool) (ps : List Piece) : List Piece :=
  ps.flatMap fun
    | .kept c => [.kept c]
    | .found t => if p t then Piece.keep (escaped t) else [.found t]

theorem settled_kept_cons (c : Char) : settled p (.kept c :: ps) = .kept c :: settled p ps := rfl

theorem settled_found_cons (t : Text) : settled p (.found t :: ps) =
    (if p t then Piece.keep (escaped t) else [.found t]) ++ settled p ps := rfl

theorem founds_settled : Piece.founds (settled p ps) = (Piece.founds ps).filter (!p ·) := by
  induction ps with
  | nil => rfl
  | cons q ps ih =>
    cases q with
    | kept c => exact ih
    | found t =>
      rw [settled_found_cons, Piece.founds_append, ih, Piece.founds_found_cons, List.filter_cons]
      by_cases ht : p t
      · simp [ht]
      · simp [ht, Piece.founds_found_cons]
        rfl

/-- The rewritten text begins with a dollar only if the text does. -/
theorem head?_of_head?_mapFound
    (h : (Piece.mapFound (escapeIf p) ps).head? = some '$') :
    (Piece.sources ps).head? = some '$' := by
  induction ps with
  | nil => cases h
  | cons q ps ih =>
    cases q with
    | kept c => exact h
    | found t =>
      rw [Piece.mapFound_found_cons, escapeIf] at h
      split at h
      · cases h
      · cases t with
        | nil => exact ih h
        | cons c t => exact h

/-- After a dollar a dollar is kept. -/
theorem head?_mapFound_of_head? (hs : s.head? = some '$') (hx : x.getLast? = some '$') :
    (Piece.mapFound (escapeIf p) (Text.cutAfter recogniser x s)).head? = some '$' := by
  obtain ⟨s, rfl⟩ : ∃ s', s = '$' :: s' := by
    cases s with
    | nil => cases hs
    | cons c s =>
      cases hs
      exact ⟨s, rfl⟩
  rw [Text.cutAfter_of_none (by simp [recogniser, hx])]
  rfl

/-- Where no interior ends, none ends after spans were escaped. -/
theorem interior?_mapFound {b : Char} (x s : Text) (hx : x.getLast? = some b)
    (h : interior? b s = none) :
    interior? b (Piece.mapFound (escapeIf p) (Text.cutAfter recogniser x s)) = none := by
  refine Text.cut_induction honest_recogniser (motive := fun x s ps => ∀ b, x.getLast? = some b →
    interior? b s = none → interior? b (Piece.mapFound (escapeIf p) ps) = none) ?_ ?_ ?_ x s b hx h
  · exact fun _ _ _ h => h
  · intro x c s _ ih b hx h
    rw [Piece.mapFound_kept_cons, interior?] at *
    split at h
    · next hline => rw [if_pos hline]
    · next hline =>
      rw [if_neg hline]
      split at h
      · next hcloses =>
        rw [if_pos hcloses]
        simp only [ne_eq, Bool.and_eq_true, decide_eq_true_eq] at hcloses
        split at h
        · next hdouble =>
          rw [if_pos (head?_mapFound_of_head? hdouble (by simp [hcloses.1]))]
        · cases h
      · next hopen =>
        rw [if_neg hopen]
        rw [Option.map_eq_none_iff] at h ⊢
        exact ih c List.getLast?_concat h
  · -- the first dollar of a span would end the interior
    rintro x u v ps hps rfl - b hx h
    obtain ⟨body, y, hsplit, hpairs, rfl⟩ := recogniser_eq_some_iff.1 hps
    have hb : b ≠ '\\' := by
      rintro rfl
      exact hpairs.unescaped hx
    have hspan : span body ++ y = '$' :: (body ++ '$' :: y) := by simp [span]
    rw [hsplit, hspan, interior?, if_neg (by decide), if_pos (by simp [hb]),
      if_neg hpairs.head?_ne] at h
    cases h

/-- No span opens in an escaped one. -/
theorem cutAfter_escaped {body y : Text} (h : Pairs x body y) (v : Text) :
    Text.cutAfter recogniser x' (escaped (span body) ++ v) =
      Piece.keep (escaped (span body)) ++
        Text.cutAfter recogniser (x' ++ escaped (span body)) v := by
  refine Text.cutAfter_append_of_none fun u c w hsplit => ?_
  by_cases hc : c = '$'
  · subst hc
    refine recogniser_dollar_eq_none_iff.2 (.inl ?_)
    rw [List.getLast?_append, getLast?_of_escaped_eq h hsplit]
    rfl
  · exact recogniser_of_ne hc

/-- **Once some spans are escaped**, the others are the spans of the text. -/
theorem cutAfter_mapFound (hx : x'.getLast? = x.getLast?) :
    Text.cutAfter recogniser x' (Piece.mapFound (escapeIf p) (Text.cutAfter recogniser x s)) =
      settled p (Text.cutAfter recogniser x s) := by
  refine Text.cut_induction honest_recogniser (motive := fun x s ps => ∀ x' : Text,
    x'.getLast? = x.getLast? → Text.cutAfter recogniser x' (Piece.mapFound (escapeIf p) ps) =
      settled p ps) ?_ ?_ ?_ x s x' hx
  · exact fun _ _ _ => rfl
  · intro x c s hnone ih x' hx
    have hnone' : recogniser x'.getLast?
        (c :: Piece.mapFound (escapeIf p) (Text.cutAfter recogniser (x ++ [c]) s)) = none := by
      rw [hx]
      by_cases hc : c = '$'
      · subst hc
        rw [recogniser_dollar_eq_none_iff] at hnone ⊢
        exact hnone.imp_right (.imp_right (.imp
          (head?_mapFound_of_head? · List.getLast?_concat)
          (interior?_mapFound _ s List.getLast?_concat)))
      · exact recogniser_of_ne hc
    rw [Piece.mapFound_kept_cons, Text.cutAfter_of_none hnone', settled_kept_cons,
      ih _ (by simp)]
  · rintro x u v ps hps rfl ih x' hx
    obtain ⟨body, y, hsplit, hpairs, rfl⟩ := recogniser_eq_some_iff.1 hps
    obtain rfl : v = y := by simpa [Piece.source] using hsplit
    rw [List.singleton_append, Piece.mapFound_found_cons, settled_found_cons, escapeIf]
    have hlast : (x ++ Piece.sources [.found (span body)]).getLast? = some '$' := by
      rw [Piece.sources_cons, Piece.sources_nil, List.append_nil]
      exact getLast?_append_span x body
    by_cases hp : p (span body)
    · rw [if_pos hp, if_pos hp, cutAfter_escaped hpairs, ih _ (by rw [getLast?_append_escaped, hlast])]
    · have hends : Pairs x' body (Piece.mapFound (escapeIf p)
          (Text.cutAfter recogniser (x ++ Piece.sources [.found (span body)]) v)) := by
        refine { hpairs with
          unescaped := by rw [hx]; exact hpairs.unescaped
          undoubled := by rw [hx]; exact hpairs.undoubled
          ends := fun h => hpairs.ends ?_ }
        have hhead := head?_of_head?_mapFound h
        rwa [Text.sources_cutAfter honest_recogniser] at hhead
      have hfound := recogniser_eq_some_iff.2 ⟨body, _, rfl, hends, rfl⟩
      rw [if_neg hp, if_neg hp, Text.cutAfter_append_of_found honest_recogniser hfound,
        ih _ (by rw [getLast?_append_span, hlast])]
      rfl

/-- **Once some spans of a text are escaped**, its spans are the others. -/
theorem spans_mapFound (p : Text → Bool) (s : Text) :
    spans (Piece.mapFound (escapeIf p) (spans s)) = settled p (spans s) :=
  @cutAfter_mapFound p [] [] s rfl

/-- **To escape the literal spans settles every span**: the spans that are then found are those that
read as math before, in order, so all of them do, and nothing is left to escape. All that changes is
that the dollars of the spans without the sentinel that hold a single digit get a backslash. -/
theorem escapeLiteral_settles (S : Char) (s : Text) :
    Piece.founds (openSpans S (escapeLiteral S s)) =
        (Piece.founds (openSpans S s)).filter (fun t => readsAsMath (interior t)) ∧
      (∀ t ∈ Piece.founds (openSpans S (escapeLiteral S s)), readsAsMath (interior t)) ∧
      escapeLiteral S (escapeLiteral S s) = escapeLiteral S s ∧
      escapeLiteral S s = Piece.mapFound (fun t =>
        if S ∉ t ∧ isLoneDigit (interior t) then "\\$".toList ++ interior t ++ "\\$".toList else t)
        (spans s) := by
  have hfounds : Piece.founds (openSpans S (escapeLiteral S s)) =
      (Piece.founds (openSpans S s)).filter (fun t => readsAsMath (interior t)) := by
    rw [escapeLiteral_eq, openSpans, spans_mapFound, openSpans, Piece.founds_retain,
      Piece.founds_retain, founds_settled, List.filter_filter, List.filter_filter]
    refine List.filter_congr fun t _ => ?_
    by_cases hS : S ∈ t <;> simp [isLiteral, hS]
  have hmath : ∀ t ∈ Piece.founds (openSpans S (escapeLiteral S s)), readsAsMath (interior t) := by
    rw [hfounds]
    exact fun t ht => (List.mem_filter.1 ht).2
  refine ⟨hfounds, hmath, escapeLiteral_eq_self hmath, ?_⟩
  rw [escapeLiteral_eq]
  refine Piece.mapFound_congr fun t _ => ?_
  by_cases hS : S ∈ t <;> simp [escapeIf, isLiteral, escaped, readsAsMath_eq, hS]

end

end Dollar

end MarkdownPrep
