import MarkdownPrep.Binary64.Basic
import MarkdownPrep.Text.Basic

/-!
# The shortest decimal of a number

`shortest` gives the fewest digits that read back as the same magnitude, and of the decimals with
that many digits the nearest one, a tie going to the even last digit. All comparisons are made
exactly, in quarters of a unit, so that half the gap between neighbours is a whole number.

For each number of digits the two decimals of that length around the magnitude are tried: if any
decimal of that length reads back, one of the two does. Seventeen digits always do.
-/

namespace MarkdownPrep.Binary64

/-- A positive decimal: `digits · 10 ^ exponent`. -/
structure Decimal where
  digits : Nat
  exponent : Int
  deriving DecidableEq, Repr

/-- The power of ten as a quotient of two whole numbers. -/
def tenPower (e : Int) : Nat × Nat := (tenTo e.toNat, tenTo (-e).toNat)

/-- The exponent of the leading decimal digit of a positive number of units. -/
def leadingExponent (units : Nat) : Int :=
  if one ≤ units then ((Nat.toDigits 10 (units / one)).length - 1 : Nat)
  else -((Nat.toDigits 10 ((one + units - 1) / units - 1)).length : Int)

/-- The least and the greatest number of quarter units that read back as the magnitude of a code,
the ends themselves included when the mantissa is even. Below a power of two the gap is half as
wide. -/
def readingRange (code : Nat) : Nat × Nat :=
  let m := mantissaOf code
  let gap := 1 <<< scaleOf code
  let lower := if m = 1 <<< 52 && 0 < scaleOf code then gap else 2 * gap
  (4 * m * gap - lower, 4 * m * gap + 2 * gap)

/-- True when `digits · 10 ^ exponent` reads back as the magnitude of a code. -/
def readsBack (code : Nat) (d : Decimal) : Bool :=
  let (lo, hi) := readingRange code
  let (num, den) := tenPower d.exponent
  let quarters := d.digits * num * (4 * one)
  if mantissaOf code % 2 = 0 then lo * den ≤ quarters && quarters ≤ hi * den
  else lo * den < quarters && quarters < hi * den

/-- The decimal with `n` digits nearest to the magnitude of a code that reads back, if one
does. -/
def nearest? (code n : Nat) : Option Decimal :=
  let exponent := leadingExponent (unitsOf code) + 1 - n
  let (num, den) := tenPower exponent
  let below := unitsOf code * den / (num * one)
  let nearer := divNearestEven (unitsOf code * den) (num * one)
  let farther := if nearer = below then below + 1 else below
  [⟨nearer, exponent⟩, ⟨farther, exponent⟩].find? (readsBack code)

/-- The shortest decimal of a positive magnitude. -/
def shortest (code : Nat) : Decimal :=
  ((List.range 17).findSome? fun i => nearest? code (i + 1)).getD ⟨0, 0⟩

/-- The digits of a number without the zeros at their end. -/
def significant (n : Nat) : Text :=
  ((Nat.toDigits 10 n).reverse.dropWhile (· = '0')).reverse

end MarkdownPrep.Binary64
