import MarkdownPrep.Text.Basic

/-!
# Replacing a fixed text

`Text.replace` replaces every occurrence of one text by another, from left to right; of
overlapping occurrences the first is replaced, and what was put in is not searched again.
-/

namespace MarkdownPrep.Text

/-- The text after `covered` characters of an occurrence that is already replaced, with the
further occurrences of `old` replaced by `new`. -/
def replaceFrom (old new : Text) (covered : Nat) : Text → Text
  | [] => []
  | c :: s =>
    match covered with
    | n + 1 => replaceFrom old new n s
    | 0 =>
      if old.isPrefixOf (c :: s) then new ++ replaceFrom old new (old.length - 1) s
      else c :: replaceFrom old new 0 s

/-- The text with every occurrence of `old` replaced by `new`; `old` is not empty. -/
def replace (old new s : Text) : Text := replaceFrom old new 0 s

theorem replaceFrom_eq_drop (old new : Text) (n : Nat) (s : Text) :
    replaceFrom old new n s = replace old new (s.drop n) := by
  induction s generalizing n with
  | nil => simp [replaceFrom, replace]
  | cons c s ih =>
    cases n with
    | zero => rfl
    | succ n => simpa [replaceFrom] using ih n

/-- A text at the front is replaced first. -/
theorem replace_append_self {old : Text} (h : old ≠ []) (new s : Text) :
    replace old new (old ++ s) = new ++ replace old new s := by
  cases old with
  | nil => exact absurd rfl h
  | cons c t =>
    rw [replace, List.cons_append, replaceFrom, if_pos (by simp)]
    simp [replaceFrom_eq_drop]

end MarkdownPrep.Text
