import MarkdownPrep.Amount.Grammar
import MarkdownPrep.Dollar.Span
import MarkdownPrep.Text.DecimalDigit

/-!
# Literal dollars

A dollar span is read as inline math unless its interior is a plain amount without any sign of
math; then its dollars are literal and are escaped. More than one character is such a sign, so
what is left is a single decimal digit. Spans that touch a token are left alone.
-/

namespace MarkdownPrep.Dollar

/-- The characters that a formula has between its terms or around them. -/
def operators : Text := "+-*/=<>^_\x7b\x7d()".toList

/-- The macros that stand for a Greek letter. -/
def greekMacros : List Text :=
  ["\\alpha".toList, "\\beta".toList, "\\gamma".toList, "\\delta".toList, "\\epsilon".toList,
    "\\theta".toList, "\\lambda".toList, "\\mu".toList, "\\pi".toList, "\\sigma".toList,
    "\\omega".toList]

/-- The macros that stand for a function or a large operator. -/
def functionMacros : List Text :=
  ["\\frac".toList, "\\sqrt".toList, "\\sum".toList, "\\int".toList, "\\lim".toList,
    "\\log".toList, "\\ln".toList, "\\sin".toList, "\\cos".toList, "\\tan".toList, "\\exp".toList]

/-- True at a place where a character of the class `p` stands before one of the class `q` on the
same line. -/
def precedes (p q : Char → Bool) (_ : Option Char) : Text → Bool
  | [] => false
  | c :: s => p c && (s.takeWhile (· ≠ '\n')).any q

/-- True when an ASCII letter and a digit stand on one line of a text. -/
def mixesLettersAndDigits (s : Text) : Bool :=
  Text.anyPlace (precedes Char.isAlpha isDecimalDigit) none s ||
    Text.anyPlace (precedes isDecimalDigit Char.isAlpha) none s

/-- True when a text has a sign of math: a macro, an operator, a letter and a digit on one line, or
just more than one character. -/
def hasMathSign (s : Text) : Bool :=
  s.contains '\\' || s.any operators.contains || mixesLettersAndDigits s ||
    greekMacros.any (Text.hasPart · s) || functionMacros.any (Text.hasPart · s) || 1 < s.length

/-- What may end a plain amount: nothing, or a point and two digits. -/
def isCents : Text → Bool
  | [] => true
  | ['.', a, b] => isDecimalDigit a && isDecimalDigit b
  | _ => false

/-- True when a text is digits, thousands groups and cents, and nothing else. -/
def isPlainAmount (s : Text) : Bool :=
  s.head?.any isDecimalDigit &&
    (Amount.afterGroups isDecimalDigit (s.dropWhile isDecimalDigit)).any isCents

/-- True when the interior of a span reads as math. -/
def readsAsMath (s : Text) : Bool :=
  (Text.trim s).isEmpty || hasMathSign s || !isPlainAmount (Text.trim s)

/-- The pieces of a text with the spans found that hold no `sentinel`. -/
def openSpans (sentinel : Char) (s : Text) : List Piece :=
  Piece.retain (!List.contains · sentinel) (spans s)

@[simp] theorem sources_openSpans (sentinel : Char) (s : Text) :
    Piece.sources (openSpans sentinel s) = s := by simp [openSpans]

/-- A span with its dollars escaped if they are literal. -/
def settle (span : Text) : Text :=
  if readsAsMath (interior span) then span else "\\$".toList ++ interior span ++ "\\$".toList

/-- The text with the literal dollars of its spans escaped. -/
def escapeLiteral (sentinel : Char) (s : Text) : Text :=
  Piece.mapFound settle (openSpans sentinel s)

end MarkdownPrep.Dollar
