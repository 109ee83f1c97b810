import MarkdownPrep.Text.Blank

/-!
# Private use characters

Unicode leaves three ranges of codes without meaning (category Co). `Text.unusedPrivate` picks
the first of them that a text does not contain.
-/

namespace MarkdownPrep

/-- The codes of the private use characters. -/
def privateUseRanges : List (Nat × Nat) :=
  [(0xE000, 0xF8FF), (0xF0000, 0xFFFFD), (0x100000, 0x10FFFD)]

/-- A private use character: the category Co. -/
def isPrivateUse (c : Char) : Bool := inRanges privateUseRanges c

/-- The `n`-th code, from zero, of a list of ranges. -/
def nthCode? (n : Nat) : List (Nat × Nat) → Option Nat
  | [] => none
  | (lo, hi) :: ranges =>
    if lo + n ≤ hi then some (lo + n) else nthCode? (n - (hi + 1 - lo)) ranges

/-- The `n`-th private use character, from zero. -/
def privateUse? (n : Nat) : Option Char := (nthCode? n privateUseRanges).map Char.ofNat

/-- The first private use character that does not occur in a text. A text of `n` characters
leaves one of the first `n + 1` unused; one that uses them all gets the first. -/
def Text.unusedPrivate (s : Text) : Char :=
  ((List.range (s.length + 1)).findSome? fun n => (privateUse? n).filter (!s.contains ·)).getD
    '\uE000'

end MarkdownPrep
