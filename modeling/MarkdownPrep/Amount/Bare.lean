import MarkdownPrep.Amount.Grammar
import MarkdownPrep.Text.DecimalDigit

/-!
# Bare amounts

The text between two dollars may be nothing but an amount, such as `1,000` or `5k`. Here the
digits are decimal digits of any script.
-/

namespace MarkdownPrep.Amount

/-- What may follow the figure of a bare amount: nothing, a letter after at most one white
space character, or a word whose first letter alone may be a capital. -/
def isBareSuffix (s : Text) : Bool :=
  match s with
  | [] => true
  | [c] => magnitudeLetters.contains c
  | [b, c] => isBlank b && magnitudeLetters.contains c
  | c :: t => magnitudeWords.contains (c.toLower :: t)

/-- True when a text is an amount and nothing else: an optional minus, one to three digits,
thousands groups, an optional fraction and an optional magnitude. -/
def isBare (s : Text) : Bool :=
  let figure := Text.dropOne '-' s
  let lead := (figure.takeWhile isDecimalDigit).length
  1 ≤ lead && lead ≤ 3 &&
    (afterGroups isDecimalDigit (figure.drop lead)).any fun s =>
      (afterFraction isDecimalDigit s).any isBareSuffix

end MarkdownPrep.Amount
