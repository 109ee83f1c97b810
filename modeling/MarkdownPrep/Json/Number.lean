import MarkdownPrep.Binary64.Read

/-!
# JSON numbers

A number literal without fraction and exponent is a whole number as long as it fits into 64 bits,
unsigned or, below zero, signed. Every other literal is a binary64 number, and so is `-0`, which
keeps its sign that way.

Literals of the second sort are read fast and not always to the nearest number. The digits are
collected into a significand below 2⁶⁴; digits that would overflow it are left out. Significand
and power of ten are each rounded, and then multiplied or divided with one more rounding.
-/

namespace MarkdownPrep.Json

/-- A number. -/
inductive Number where
  | int (n : Int)
  | float (x : Binary64)
  deriving DecidableEq, Repr

/-- A number as it is written. -/
structure Literal where
  negative : Bool
  whole : Text
  /-- The digits after the point, if there is a point. -/
  fraction : Option Text
  /-- Whether the exponent is negative and its digits, if there is an exponent. -/
  exponent : Option (Bool × Text)
  deriving DecidableEq, Repr

/-- The number of significands. -/
def significands : Nat := 1 <<< 64

/-- Collects digits into a significand up to the first that would overflow it; gives the
significand and the number of digits left out. -/
def collect (significand : Nat) : Text → Nat × Nat
  | [] => (significand, 0)
  | c :: ds =>
    let next := significand * 10 + digitsValue [c]
    if next < significands then collect next ds else (significand, ds.length + 1)

/-- The number nearest to a power of ten, if it is finite. -/
def powerOfTen? (n : Nat) : Option Binary64 := Binary64.ofNat? (Binary64.tenTo n)

/-- The greatest power of ten that is finite. -/
def maxPower : Nat := 308

/-- A magnitude divided by `10 ^ n`, in several steps where the power is not finite. -/
def lowered? (n : Nat) (x : Binary64) : Option Binary64 :=
  if n ≤ maxPower then (powerOfTen? n).bind x.div?
  else if x.isZero then some x
  else (powerOfTen? maxPower).bind x.div? |>.bind (lowered? (n - maxPower))
termination_by n
decreasing_by simp only [maxPower] at *; omega

/-- A significand times a power of ten, if that is finite. -/
def scaled? (significand : Nat) (exponent : Int) : Option Binary64 := do
  let x ← Binary64.ofNat? significand
  if exponent < 0 then lowered? (-exponent).toNat x
  else if exponent.toNat ≤ maxPower then (powerOfTen? exponent.toNat).bind x.mul?
  else if x.isZero then some x
  else none

/-- The greatest exponent that is taken as it is written. -/
def maxExponent : Nat := (1 <<< 31) - 1

/-- The binary64 number of a literal, if it is finite. -/
def Literal.float? (l : Literal) : Option Binary64 :=
  let (whole, dropped) := collect 0 l.whole
  let fraction := l.fraction.getD []
  let (significand, left) := collect whole fraction
  let shift : Int := dropped - (fraction.length - left : Nat)
  let magnitude := match l.exponent with
    | none => scaled? significand shift
    | some (negative, ds) =>
      let e := digitsValue ds
      if e ≤ maxExponent then scaled? significand (if negative then shift - e else shift + e)
      else if negative || significand = 0 then some (.zero false)
      else none
  magnitude.map (·.withSign l.negative)

/-- The number that a literal writes, if it is finite. -/
def Literal.number? (l : Literal) : Option Number :=
  let n := digitsValue l.whole
  match l.fraction, l.exponent, l.negative with
  | none, none, false => if n < significands then some (.int n) else l.float?.map .float
  | none, none, true => if 0 < n && n ≤ 1 <<< 63 then some (.int (-n)) else l.float?.map .float
  | _, _, _ => l.float?.map .float

/-- The binary64 number nearest to a number. Whole numbers of 64 bits all have a finite one. -/
def Number.toBinary64? : Number → Option Binary64
  | int n => (Binary64.ofNat? n.natAbs).map (·.withSign (n < 0))
  | float x => some x

end MarkdownPrep.Json
