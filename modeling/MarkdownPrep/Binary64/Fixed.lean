import MarkdownPrep.Binary64.Basic
import MarkdownPrep.Text.Basic

/-!
# Fixed places

A magnitude with a given number of decimal places. The exact value is rounded once; a half goes
to the even last digit.
-/

namespace MarkdownPrep.Binary64

/-- The magnitude of a number in tenths, hundredths and so on, by the number of places. -/
def inPlaces (places : Nat) (x : Binary64) : Nat :=
  divNearestEven (x.units * tenTo places) one

/-- The whole part and the decimal places of a magnitude. -/
def fixedParts (places : Nat) (x : Binary64) : Text × Text :=
  let n := x.inPlaces places
  let fraction := Nat.toDigits 10 (n % tenTo places)
  (Nat.toDigits 10 (n / tenTo places),
    if places = 0 then [] else List.replicate (places - fraction.length) '0' ++ fraction)

/-- The magnitude rounded to decimal places, read back as a number. -/
def roundedTo (places : Nat) (x : Binary64) : Option Binary64 :=
  ofRatio? false (x.inPlaces places) (tenTo places)

end MarkdownPrep.Binary64
