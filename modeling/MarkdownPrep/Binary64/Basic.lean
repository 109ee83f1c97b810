/-!
# Binary64 numbers

The finite IEEE 754 binary64 numbers, with exact arithmetic followed by one rounding. Magnitudes
are in order numbered by their codes, the exponent and fraction fields read as one number, and
every magnitude is a whole number of units, a unit being the least positive one, 2⁻¹⁰⁷⁴. An
operation is carried out on units in `Nat` and its result rounded to the nearest number, a half
way case to the one with the even mantissa; it gives none when that is no longer finite.
-/

namespace MarkdownPrep

/-- The number of finite magnitudes. -/
def Binary64.codes : Nat := 2047 <<< 52

/-- A finite binary64 number: a sign and the code of its magnitude. Zero has two signs. -/
structure Binary64 where
  negative : Bool
  code : Fin Binary64.codes
  deriving DecidableEq, Repr

namespace Binary64

/-- The number of units in one. -/
def one : Nat := 1 <<< 1074

/-- Ten to a power. -/
def tenTo (n : Nat) : Nat := Nat.pow 10 n

/-- How often the mantissa of a code is doubled to give its units. -/
def scaleOf (code : Nat) : Nat := (code >>> 52) - 1

/-- The mantissa of a code: its fraction field, with the leading one unless it is subnormal. -/
def mantissaOf (code : Nat) : Nat := code - scaleOf code <<< 52

/-- The magnitude of a code in units. -/
def unitsOf (code : Nat) : Nat := mantissaOf code <<< scaleOf code

/-- The magnitude of a number in units. -/
def units (x : Binary64) : Nat := unitsOf x.code

/-- The quotient rounded to the nearest number, a half to the even one. -/
def divNearestEven (num den : Nat) : Nat :=
  let q := num / den
  let twice := 2 * (num % den)
  if twice < den then q else if den < twice then q + 1 else q + q % 2

/-- The code of the magnitude nearest to `num / den`; past the last code when that is not
finite. The mantissa gets 53 bits, fewer when they would be smaller than a unit. -/
def nearestCode (num den : Nat) : Nat :=
  let scale := (num * one / den).log2 - 52
  scale <<< 52 + divNearestEven (num * one) (den <<< scale)

/-- The number nearest to `num / den` with a sign, if it is finite. -/
def ofRatio? (negative : Bool) (num den : Nat) : Option Binary64 :=
  if h : nearestCode num den < codes then some ⟨negative, ⟨nearestCode num den, h⟩⟩ else none

/-- The number nearest to a natural number, if it is finite. -/
def ofNat? (n : Nat) : Option Binary64 := ofRatio? false n 1

/-- Zero with a sign. -/
def zero (negative : Bool) : Binary64 := ⟨negative, ⟨0, by decide⟩⟩

/-- The number nearest to `num / den`, for a quotient in range. -/
def ofRatio (num den : Nat) : Binary64 := (ofRatio? false num den).getD (zero false)

/-- The number nearest to a natural number in range. -/
def ofNat (n : Nat) : Binary64 := ofRatio n 1

/-- The number with its sign set. -/
def withSign (negative : Bool) (x : Binary64) : Binary64 := ⟨negative, x.code⟩

/-- True for zero of either sign. -/
def isZero (x : Binary64) : Bool := x.code.val = 0

/-- True below zero. -/
def isNegative (x : Binary64) : Bool := x.negative && !x.isZero

/-- True above zero. -/
def isPositive (x : Binary64) : Bool := !x.negative && !x.isZero

/-- The product with a positive number, if it is finite. -/
def mul? (x y : Binary64) : Option Binary64 := ofRatio? x.negative (x.units * y.units) (one * one)

/-- The quotient by a positive number, if it is finite. -/
def div? (x y : Binary64) : Option Binary64 := ofRatio? x.negative x.units y.units

/-- The nearest natural number to a magnitude, a half rounded up. -/
def roundHalfUp (x : Binary64) : Nat := (2 * x.units + one) / (2 * one)

end Binary64

end MarkdownPrep
