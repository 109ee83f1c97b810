import MarkdownPrep.Amount.Grammar
import MarkdownPrep.Text.Cut
import MarkdownPrep.Text.WordChar

/-!
# A quick check for math

`holdsMath` tells whether a text holds delimited math at all, amounts aside. It is cheaper
than the passes and does not look at code.
-/

namespace MarkdownPrep

namespace MathCheck

/-- What is left of a text after the figure at its front, up to a word boundary: digits,
thousands groups and a fraction, the longest way that ends at one. -/
def afterFigure? (s : Text) : Option Text :=
  if s.head?.any isDecimalDigit then
    ((Amount.afterGroups isDecimalDigit (s.dropWhile isDecimalDigit)).flatMap
      (Amount.afterFraction isDecimalDigit)).find? (!Text.startsWithWord ·)
  else none

/-- The text with one leading white space character dropped, if it has one. -/
def dropBlank : Text → Text
  | [] => []
  | c :: s => if isBlank c then s else c :: s

/-- A dollar and a figure, with at most one white space character between them. -/
def amountRecogniser : Recogniser := fun _ s =>
  match s with
  | '$' :: t =>
    (afterFigure? (dropBlank t)).map fun rest => [.found (Amount.front s rest)]
  | _ => none

/-- The text without its dollar amounts. -/
def dropAmounts (s : Text) : Text := Piece.mapFound (fun _ => []) (Text.cut amountRecogniser s)

/-- True at a place where `first` starts a stretch that `last` ends, with at least one character
between. -/
def encloses (first last : Text) (_ : Option Char) (s : Text) : Bool :=
  first.isPrefixOf s && Text.hasPart last (s.drop (first.length + 1))

/-- True at a place where `\(` starts a stretch that `\)` ends, with at least one character and
no other closing parenthesis between. -/
def parenthesised (_ : Option Char) (s : Text) : Bool :=
  match s with
  | '\\' :: '(' :: t =>
    let body := t.takeWhile (· ≠ ')')
    body.length < t.length && 2 ≤ body.length && body.getLast? = some '\\'
  | _ => false

/-- True at an unescaped dollar that the next dollar on its line pairs with, neither directly
nor escaped. -/
def pairedDollar (before : Option Char) (s : Text) : Bool :=
  match s with
  | '$' :: t =>
    let body := t.takeWhile fun c => c ≠ '$' && c ≠ '\n'
    before ≠ some '\\' && body ≠ [] && (t.drop body.length).head? = some '$' &&
      body.getLast? ≠ some '\\'
  | _ => false

end MathCheck

open MathCheck in
/-- True when a text holds delimited math, dollar amounts aside. -/
def holdsMath (s : Text) : Bool :=
  let t := dropAmounts s
  Text.anyPlace (encloses "$$".toList "$$".toList) none t ||
    Text.anyPlace pairedDollar none t ||
    Text.anyPlace (encloses "\\[".toList "\\]".toList) none t ||
    Text.anyPlace parenthesised none t

end MarkdownPrep
