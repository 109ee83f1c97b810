import MarkdownPrep.Text.Basic

/-!
# The parts of an amount

Readers for the parts of a written amount. A reader gives what is left of the text after each
way to read the part, the longest way first, so that a caller can take the first one that suits
what follows.
-/

namespace MarkdownPrep.Amount

/-- The front part of `s` that was read when `rest` is what is left of it. -/
def front (s rest : Text) : Text := s.take (s.length - rest.length)

theorem front_append {s rest : Text} (h : rest <:+ s) : front s rest ++ rest = s := by
  obtain ⟨t, rfl⟩ := h
  simp [front]

/-- Something was read when less is left. -/
theorem front_ne_nil {c : Char} {s rest : Text} (h : rest <:+ s) : front (c :: s) rest ≠ [] := by
  intro hnil
  have := h.length_le
  rw [front, List.take_eq_nil_iff] at hnil
  simp only [List.length_cons, reduceCtorEq, or_false] at hnil
  omega

/-- The ways to read thousands groups: a comma and three digits that no fourth follows, any
number of times. The class of digits is the caller's. -/
def afterGroups (isDigit : Char → Bool) : Text → List Text
  | ',' :: a :: b :: c :: s =>
    if isDigit a && isDigit b && isDigit c && !s.head?.any isDigit then
      afterGroups isDigit s ++ [',' :: a :: b :: c :: s]
    else [',' :: a :: b :: c :: s]
  | s => [s]

theorem suffix_of_mem_afterGroups {isDigit : Char → Bool} {s t : Text}
    (h : t ∈ afterGroups isDigit s) : t <:+ s := by
  fun_induction afterGroups isDigit s with
  | case1 a b c s _ ih =>
    rcases List.mem_append.1 h with h | h
    · exact (ih h).trans ⟨[',', a, b, c], rfl⟩
    · exact List.mem_singleton.1 h ▸ List.suffix_refl _
  | case2 => exact List.mem_singleton.1 h ▸ List.suffix_refl _
  | case3 => exact List.mem_singleton.1 h ▸ List.suffix_refl _

/-- The ways to read an optional fraction: a point and a run of digits. -/
def afterFraction (isDigit : Char → Bool) (s : Text) : List Text :=
  match s with
  | '.' :: t => if t.head?.any isDigit then [t.dropWhile isDigit, s] else [s]
  | _ => [s]

theorem suffix_of_mem_afterFraction {isDigit : Char → Bool} {s t : Text}
    (h : t ∈ afterFraction isDigit s) : t <:+ s := by
  unfold afterFraction at h
  split at h
  · next u =>
    split at h
    · rcases List.mem_cons.1 h with rfl | h
      · exact (List.dropWhile_suffix _).trans (List.suffix_cons '.' u)
      · exact List.mem_singleton.1 h ▸ List.suffix_refl _
    · exact List.mem_singleton.1 h ▸ List.suffix_refl _
  · exact List.mem_singleton.1 h ▸ List.suffix_refl _

/-- The ways to read one closing parenthesis that may be missing. -/
def afterParenthesis (s : Text) : List Text :=
  match s with
  | ')' :: t => [t, s]
  | _ => [s]

theorem suffix_of_mem_afterParenthesis {s t : Text} (h : t ∈ afterParenthesis s) : t <:+ s := by
  unfold afterParenthesis at h
  split at h
  · rcases List.mem_cons.1 h with rfl | h
    · exact List.suffix_cons ')' t
    · exact List.mem_singleton.1 h ▸ List.suffix_refl _
  · exact List.mem_singleton.1 h ▸ List.suffix_refl _

/-- The magnitudes that are words. -/
def magnitudeWords : List Text := ["billion".toList, "million".toList, "kilo".toList]

/-- The magnitudes that are letters. -/
def magnitudeLetters : List Char := ['k', 'm', 'b', 'K', 'M', 'B']

/-- The ways to read a magnitude, words before letters. -/
def afterMagnitude (s : Text) : List Text :=
  magnitudeWords.filterMap (Text.dropPrefixIgnoringCase? · s) ++
    match s with
    | c :: t => if magnitudeLetters.contains c then [t] else []
    | [] => []

theorem suffix_of_mem_afterMagnitude {s t : Text} (h : t ∈ afterMagnitude s) : t <:+ s := by
  rcases List.mem_append.1 h with h | h
  · obtain ⟨w, -, hw⟩ := List.mem_filterMap.1 h
    exact Text.suffix_of_dropPrefixIgnoringCase? hw
  · split at h
    · split at h
      · exact List.mem_singleton.1 h ▸ List.suffix_cons _ _
      · simp at h
    · simp at h

/-- The ways to read an optional magnitude, which may follow one space or tab. -/
def afterSuffix (s : Text) : List Text :=
  (match s with
    | c :: t => if c = ' ' || c = '\t' then afterMagnitude t else []
    | [] => []) ++ afterMagnitude s ++ [s]

theorem suffix_of_mem_afterSuffix {s t : Text} (h : t ∈ afterSuffix s) : t <:+ s := by
  simp only [afterSuffix, List.mem_append, List.mem_singleton] at h
  rcases h with (h | h) | rfl
  · split at h
    · split at h
      · exact (suffix_of_mem_afterMagnitude h).trans (List.suffix_cons _ _)
      · simp at h
    · simp at h
  · exact suffix_of_mem_afterMagnitude h
  · exact List.suffix_refl _

/-- The ways to read a grouped figure: an optional parenthesis, one to three digits, thousands
groups, a fraction, a closing parenthesis, a magnitude. -/
def afterGrouped (s : Text) : List Text :=
  let figure := Text.dropOne '(' s
  let lead := (figure.takeWhile Char.isDigit).length
  if 1 ≤ lead && lead ≤ 3 then
    (afterGroups Char.isDigit (figure.drop lead)).flatMap fun s =>
      (afterFraction Char.isDigit s).flatMap fun s => (afterParenthesis s).flatMap afterSuffix
  else []

theorem suffix_of_mem_afterGrouped {s t : Text} (h : t ∈ afterGrouped s) : t <:+ s := by
  simp only [afterGrouped] at h
  split at h
  · obtain ⟨a, ha, h⟩ := List.mem_flatMap.1 h
    obtain ⟨b, hb, h⟩ := List.mem_flatMap.1 h
    obtain ⟨c, hc, h⟩ := List.mem_flatMap.1 h
    exact (suffix_of_mem_afterSuffix h).trans <| (suffix_of_mem_afterParenthesis hc).trans <|
      (suffix_of_mem_afterFraction hb).trans <| (suffix_of_mem_afterGroups ha).trans <|
      (List.drop_suffix _ _).trans (Text.dropOne_suffix _ _)
  · simp at h

/-- The ways to read a plain figure: an optional minus, a run of digits, a fraction, a
magnitude. -/
def afterPlain (s : Text) : List Text :=
  let figure := Text.dropOne '-' s
  if figure.head?.any Char.isDigit then
    (afterFraction Char.isDigit (figure.dropWhile Char.isDigit)).flatMap afterSuffix
  else []

theorem suffix_of_mem_afterPlain {s t : Text} (h : t ∈ afterPlain s) : t <:+ s := by
  simp only [afterPlain] at h
  split at h
  · obtain ⟨a, ha, h⟩ := List.mem_flatMap.1 h
    exact (suffix_of_mem_afterSuffix h).trans <| (suffix_of_mem_afterFraction ha).trans <|
      (List.dropWhile_suffix _).trans (Text.dropOne_suffix _ _)
  · simp at h

end MarkdownPrep.Amount
