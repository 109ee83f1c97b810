import MarkdownPrep.Text.Basic

/-!
# Lines

`Text.fullLines` cuts a text after each newline, so its lines put together are the text
(`flatten_fullLines`). `Text.lines` gives the same lines without their ends: a newline goes, and
a carriage return goes with the newline that follows it.
-/

namespace MarkdownPrep.Text

/-- The lines of a text, each with the newline that ends it. -/
def fullLines : Text → List Text
  | [] => []
  | c :: s =>
    if c = '\n' then [c] :: fullLines s
    else match fullLines s with
      | [] => [[c]]
      | l :: ls => (c :: l) :: ls

/-- No line is lost and none is made up. -/
theorem flatten_fullLines (s : Text) : (fullLines s).flatten = s := by
  induction s with
  | nil => rfl
  | cons c s ih =>
    unfold fullLines
    split
    · simp [ih]
    · split <;> simp_all

/-- Every line but the last ends in a newline. -/
theorem getLast?_of_mem_dropLast_fullLines {s line : Text} (h : line ∈ (fullLines s).dropLast) :
    line.getLast? = some '\n' := by
  induction s generalizing line with
  | nil => simp [fullLines] at h
  | cons c s ih =>
    unfold fullLines at h
    split at h
    · next hc =>
      cases hs : fullLines s with
      | nil => simp [hs] at h
      | cons l ls =>
        rw [hs, List.dropLast_cons_of_ne_nil (List.cons_ne_nil _ _), List.mem_cons] at h
        rcases h with rfl | h
        · simp [hc]
        · exact ih (by rwa [hs])
    · split at h
      · simp at h
      · next l ls hs =>
        cases ls with
        | nil => simp at h
        | cons l' ls =>
          rw [List.dropLast_cons_of_ne_nil (List.cons_ne_nil _ _), List.mem_cons] at h
          rw [hs, List.dropLast_cons_of_ne_nil (List.cons_ne_nil _ _)] at ih
          rcases h with rfl | h
          · have hl : l.getLast? = some '\n' := ih (by simp)
            cases l with
            | nil => simp at hl
            | cons a l => simpa using hl
          · exact ih (List.mem_cons_of_mem _ h)

/-- A line without its end: the newline, and a carriage return before that newline. -/
def dropLineEnd (line : Text) : Text :=
  if line.getLast? = some '\n' then dropOneEnd '\r' line.dropLast else line

/-- The lines of a text without their ends. -/
def lines (s : Text) : List Text := (fullLines s).map dropLineEnd

/-- Every line end written as one newline: a carriage return and newline pair is one line end,
and so is a carriage return alone. -/
def unifyLineEnds : Text → Text
  | [] => []
  | '\r' :: '\n' :: s => '\n' :: unifyLineEnds s
  | c :: s => (if c = '\r' then '\n' else c) :: unifyLineEnds s

end MarkdownPrep.Text
