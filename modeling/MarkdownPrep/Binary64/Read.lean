import MarkdownPrep.Binary64.Basic
import MarkdownPrep.Text.Basic

/-!
# Reading numbers from text

`Text.toInt64?` reads a whole number in the signed 64 bit range and `Text.toBinary64?` a decimal
number, which it rounds once. Both take an optional sign of either kind. The point of a decimal
may stand at either end of its digits. Words for infinity and for what is no number give none,
since the result is finite.
-/

namespace MarkdownPrep

/-- The number that a row of ASCII digits writes. -/
def digitsValue (ds : Text) : Nat := ds.foldl (fun n c => n * 10 + (c.toNat - '0'.toNat)) 0

/-- The optional sign at the front of a text: whether it is a minus, and the rest. -/
def Text.takeSign : Text → Bool × Text
  | '-' :: s => (true, s)
  | '+' :: s => (false, s)
  | s => (false, s)

/-- Reads a whole number between -2⁶³ and 2⁶³ - 1. -/
def Text.toInt64? (s : Text) : Option Int :=
  let (negative, ds) := Text.takeSign s
  if ds.isEmpty || !ds.all Char.isDigit then none
  else
    let n := digitsValue ds
    if negative then if n ≤ 1 <<< 63 then some (-n) else none
    else if n < 1 <<< 63 then some n else none

namespace Binary64

/-- The number nearest to `significand · 10 ^ exponent`, if it is finite. Exponents far out of
range are settled by the number of digits alone. -/
def ofDecimal? (negative : Bool) (significand : Nat) (exponent : Int) : Option Binary64 :=
  let top := (Nat.toDigits 10 significand).length + exponent
  if significand = 0 || top < -400 then some (zero negative)
  else if 400 < top then none
  else ofRatio? negative (significand * tenTo exponent.toNat) (tenTo (-exponent).toNat)

end Binary64

/-- Reads the exponent that may end a decimal number: `e`, an optional sign and digits. -/
def Text.exponent? : Text → Option Int
  | [] => some 0
  | c :: s =>
    let (negative, ds) := Text.takeSign s
    if (c = 'e' || c = 'E') && !ds.isEmpty && ds.all Char.isDigit then
      some (if negative then -(digitsValue ds) else digitsValue ds)
    else none

/-- Reads a decimal number, rounded to the nearest binary64 number. -/
def Text.toBinary64? (s : Text) : Option Binary64 :=
  let (negative, s) := Text.takeSign s
  let whole := s.takeWhile Char.isDigit
  let rest := s.dropWhile Char.isDigit
  let (fraction, rest) := match rest with
    | '.' :: t => (t.takeWhile Char.isDigit, t.dropWhile Char.isDigit)
    | _ => ([], rest)
  if whole.isEmpty && fraction.isEmpty then none
  else (Text.exponent? rest).bind fun e =>
    Binary64.ofDecimal? negative (digitsValue (whole ++ fraction)) (e - fraction.length)

end MarkdownPrep
