import MarkdownPrep.Text.Cut

/-!
# Dollar spans

A dollar span is a stretch from one dollar to the next on the same line. Its first dollar is
neither escaped by a backslash nor part of a doubled dollar; its last one is the first unescaped
dollar after it, and a dollar that another follows closes no span.
-/

namespace MarkdownPrep.Dollar

/-- The interior of the span that a text continues, given the character before the text. -/
def interior? (before : Char) : Text → Option Text
  | [] => none
  | c :: s =>
    if c = '\n' then none
    else if c = '$' && before ≠ '\\' then if s.head? = some '$' then none else some []
    else (interior? c s).map (c :: ·)

/-- The dollar span at the front of a text. -/
def recogniser : Recogniser := fun before s =>
  match s with
  | '$' :: t =>
    if before = some '\\' || before = some '$' || t.head? = some '$' then none
    else (interior? '$' t).map fun body => [.found ('$' :: body ++ ['$'])]
  | _ => none

theorem append_prefix_of_interior? {before : Char} {s body : Text}
    (h : interior? before s = some body) : body ++ ['$'] <+: s := by
  induction s generalizing before body with
  | nil => simp [interior?] at h
  | cons c s ih =>
    simp only [interior?] at h
    split at h
    · simp at h
    · split at h
      · next hc =>
        split at h
        · simp at h
        · cases h
          simp only [Bool.and_eq_true, decide_eq_true_eq] at hc
          simp [hc.1]
      · obtain ⟨u, hu, rfl⟩ := Option.map_eq_some_iff.1 h
        exact (List.prefix_cons_inj c).2 (ih hu)

theorem honest_recogniser : recogniser.Honest := by
  intro before s ps h
  unfold recogniser at h
  split at h
  · next t =>
    split at h
    · simp at h
    · obtain ⟨body, hb, rfl⟩ := Option.map_eq_some_iff.1 h
      obtain ⟨u, rfl⟩ := append_prefix_of_interior? hb
      exact ⟨by simp [Piece.source], u, by simp [Piece.source]⟩
  · simp at h

/-- The pieces of a text with its dollar spans found. -/
def spans (s : Text) : List Piece := Text.cut recogniser s

@[simp] theorem sources_spans (s : Text) : Piece.sources (spans s) = s :=
  Text.source_cut honest_recogniser s

/-- The text between the dollars of a span. -/
def interior (span : Text) : Text := Text.inner 1 span

end MarkdownPrep.Dollar
