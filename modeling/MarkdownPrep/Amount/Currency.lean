import MarkdownPrep.Amount.Grammar
import MarkdownPrep.Stash.Basic
import MarkdownPrep.Text.Alphanumeric

/-!
# Currency amounts in running text

`afterAmount?` reads one amount such as `$5`, `-$3.25`, `$(12.50)`, `$1,299.99` or `$3 million`
at a place. An amount is not followed by a letter, a digit or an underscore; where its longest
reading is, shorter ones are tried, so `$5 kg` holds the amount `$5` and `$10n` holds none. The
digits of an amount are the ASCII digits.

`amounts` cuts a text into its amounts and the rest. The right side of a range such as `$5-$10`
is read after the dash, which is therefore not taken for its sign.
-/

namespace MarkdownPrep.Amount

/-- What is left of a text after the amount at its front, given the character before it. A
dollar that a backslash escapes starts no amount. -/
def afterAmount? (before : Option Char) : Text → Option Text
  | '-' :: '$' :: s => (afterGrouped s).find? (!Text.startsWithName ·)
  | '$' :: s =>
    if before = some '\\' then none
    else (afterGrouped s ++ afterPlain s).find? (!Text.startsWithName ·)
  | _ => none

/-- An amount has at least its dollar. -/
theorem suffix_of_afterAmount? {before : Option Char} {c : Char} {s rest : Text}
    (h : afterAmount? before (c :: s) = some rest) : rest <:+ s := by
  unfold afterAmount? at h
  split at h
  · next u hu =>
    cases hu
    exact (suffix_of_mem_afterGrouped (List.mem_of_find?_eq_some h)).trans (List.suffix_cons _ _)
  · next u _ hu =>
    cases hu
    split at h
    · simp at h
    · rcases List.mem_append.1 (List.mem_of_find?_eq_some h) with h | h
      · exact suffix_of_mem_afterGrouped h
      · exact suffix_of_mem_afterPlain h
  · simp at h

/-- The text with one leading space or tab dropped, if it has one. -/
def dropSpace : Text → Text
  | [] => []
  | c :: s => if c = ' ' || c = '\t' then s else c :: s

/-- What is left after the dash of a range and the space around it: where the right side is. -/
def afterDash? (s : Text) : Option Text :=
  match dropSpace s with
  | c :: t => if c = '-' || c = '–' then some (dropSpace t) else none
  | [] => none

theorem dropSpace_suffix (s : Text) : dropSpace s <:+ s := by
  unfold dropSpace
  split
  · exact List.suffix_refl _
  · split
    · exact List.suffix_cons _ _
    · exact List.suffix_refl _

theorem suffix_of_afterDash? {s t : Text} (h : afterDash? s = some t) : t <:+ s := by
  unfold afterDash? at h
  split at h
  · next c u hu =>
    split at h
    · cases h
      exact (dropSpace_suffix u).trans <| (List.suffix_cons c u).trans (hu ▸ dropSpace_suffix s)
    · simp at h
  · simp at h

/-- The amount, or the two amounts of a range, at the front of a text. -/
def recogniser : Recogniser := fun before s => do
  let rest ← afterAmount? before s
  let left := front s rest
  let range : Option (List Piece) := do
    let right ← afterDash? rest
    let rest' ← afterAmount? none right
    some (.found left :: Piece.keep (front rest right) ++ [.found (front right rest')])
  some (range.getD [.found left])

theorem honest_recogniser : recogniser.Honest := by
  intro before s ps h
  cases s with
  | nil => simp [recogniser, afterAmount?] at h
  | cons c s =>
    simp only [recogniser, Option.bind_eq_bind, Option.bind_eq_some_iff, Option.some.injEq] at h
    obtain ⟨rest, hr, h⟩ := h
    have hrest := suffix_of_afterAmount? hr
    have hleft : front (c :: s) rest ++ rest = c :: s :=
      front_append (hrest.trans (List.suffix_cons c s))
    have hne : front (c :: s) rest ≠ [] := front_ne_nil hrest
    rcases hd : afterDash? rest with _ | right
    · simp only [hd, Option.bind_none, Option.getD_none] at h
      subst h
      exact ⟨by simpa [Piece.source] using hne, rest, by simpa [Piece.source] using hleft⟩
    rcases ha : afterAmount? none right with _ | rest'
    · simp only [hd, ha, Option.bind_some, Option.bind_none, Option.getD_none] at h
      subst h
      exact ⟨by simpa [Piece.source] using hne, rest, by simpa [Piece.source] using hleft⟩
    · simp only [hd, ha, Option.bind_some, Option.getD_some] at h
      subst h
      refine ⟨by simp [Piece.source, hne], rest', ?_⟩
      have hgap := front_append (suffix_of_afterDash? hd)
      have hright : front right rest' ++ rest' = right := front_append <| by
        cases right with
        | nil => simp [afterAmount?] at ha
        | cons d t => exact (suffix_of_afterAmount? ha).trans (List.suffix_cons d t)
      simp [Piece.source, hright, hgap, hleft]

/-- The pieces of a text with its amounts found. -/
def amounts (s : Text) : List Piece := Text.cut recogniser s

@[simp] theorem sources_amounts (s : Text) : Piece.sources (amounts s) = s :=
  Text.source_cut honest_recogniser s

/-- Puts every amount of a text aside. -/
def hide (s : Text) (st : Stash) : Text × Stash := st.hide .currency (amounts s)

end MarkdownPrep.Amount
