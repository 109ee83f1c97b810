import MarkdownPrep.Binary64.Fixed
import MarkdownPrep.Chart.Description

/-!
# Showing values

How a value of a chart is shown to the reader. Numbers are rounded to a greatest number of
decimal places, zeros at the end are cut down to a least number, and thousands are grouped with
commas. A minus is shown only if some digit is not zero.
-/

namespace MarkdownPrep.Chart

/-- The greatest number of decimal places that is shown. -/
def maxShownPlaces : Nat := 20

/-- Digits with a comma before each group of three, counted from the right. -/
def groupThousands : Text → Text
  | [] => []
  | c :: s =>
    if s.length % 3 = 0 && !s.isEmpty then c :: ',' :: groupThousands s else c :: groupThousands s

/-- Digits without the zeros at their end as far as more than `least` digits are left. -/
def cutZeros (least : Nat) (ds : Text) : Text :=
  ds.take least ++ ((ds.drop least).reverse.dropWhile (· = '0')).reverse

/-- The least and the greatest number of decimal places. -/
structure Places where
  least : Nat
  greatest : Nat
  deriving DecidableEq, Repr

/-- True when some digit of a text is not zero. -/
def hasNonzeroDigit (s : Text) : Bool := s.any fun c => c.isDigit && c ≠ '0'

/-- A magnitude with grouped thousands. -/
def showMagnitude (places : Places) (x : Binary64) : Text :=
  let (whole, fraction) := x.fixedParts places.greatest
  let fraction := cutZeros places.least fraction
  groupThousands whole ++ if fraction.isEmpty then [] else '.' :: fraction

/-- A number with grouped thousands. -/
def showNumber (places : Places) (x : Binary64) : Text :=
  let shown := showMagnitude places x
  if x.isNegative && hasNonzeroDigit shown then '-' :: shown else shown

/-- A number that is too great to be finite. -/
def showInfinite (negative : Bool) : Text := if negative then "-inf".toList else "inf".toList

/-- The decimal places that a format shows by itself. -/
def defaultPlaces (currency : Option Text) : NumberFormat → Places
  | .currency =>
    if currency.any (Text.eqIgnoringCase · "JPY".toList) then ⟨0, 0⟩ else ⟨2, 2⟩
  | .percent => ⟨0, 0⟩
  | .compact => ⟨0, 1⟩
  | .number => ⟨0, 2⟩

/-- The decimal places that a style shows. -/
def NumberStyle.shownPlaces (f : NumberStyle) (format : NumberFormat) : Places :=
  match f.places with
  | some n => ⟨min n maxShownPlaces, min n maxShownPlaces⟩
  | none =>
    let default := defaultPlaces f.currency format
    let least := min (f.leastPlaces.getD default.least) maxShownPlaces
    ⟨least, min (max (f.greatestPlaces.getD default.greatest) least) maxShownPlaces⟩

/-- What stands before an amount in a currency: its sign, or its code and a space. -/
def currencySign (code : Text) : Text :=
  let code := Text.upper code
  if code = "USD".toList then ['$']
  else if code = "EUR".toList then ['€']
  else if code = "GBP".toList then ['£']
  else if code = "JPY".toList then ['¥']
  else code ++ [' ']

/-- An amount in the currency of a style. -/
def showCurrency (f : NumberStyle) (places : Places) (x : Binary64) : Text :=
  let code := (f.currency.filter fun c => !(Text.trim c).isEmpty).getD "USD".toList
  let shown := showMagnitude places x
  let sign := if x.isNegative && hasNonzeroDigit shown then ['-'] else []
  sign ++ currencySign code ++ shown

/-- A number as a percentage. -/
def showPercent (places : Places) (x : Binary64) : Text :=
  (match x.mul? (.ofNat 100) with
    | some y => showNumber places y
    | none => showInfinite x.negative) ++ ['%']

/-- The units of the compact format with what they stand for. -/
def compactUnits : List (Nat × Text) :=
  [(1, []), (1000, ['K']), (1000000, ['M']), (1000000000, ['B']), (1000000000000, ['T'])]

/-- The units from the greatest on that does not exceed a magnitude. -/
def unitsFrom (x : Binary64) : List (Nat × Text) → List (Nat × Text)
  | u :: v :: us =>
    if (Binary64.ofNat v.1).code ≤ x.code then unitsFrom x (v :: us) else u :: v :: us
  | us => us

/-- A number in the first of some units in which its rounded magnitude is below a thousand, or in
the last of them. -/
def showInUnits (places : Places) (x : Binary64) : List (Nat × Text) → Text
  | [] => showNumber places x
  | (scale, unit) :: us =>
    let scaled := (x.div? (.ofNat scale)).getD x
    let rounded := (scaled.roundedTo places.greatest).getD scaled
    if (Binary64.ofNat 1000).code ≤ rounded.code && !us.isEmpty then showInUnits places x us
    else showNumber places scaled ++ unit

/-- A number in the compact format. -/
def showCompact (places : Places) (x : Binary64) : Text :=
  showInUnits places x (unitsFrom x compactUnits)

/-- A number as a style shows it. -/
def NumberStyle.display (f : NumberStyle) (x : Binary64) : Text :=
  let format := f.format.getD .number
  let places := f.shownPlaces format
  let body := match format with
    | .currency => showCurrency f places x
    | .percent => showPercent places x
    | .compact => showCompact places x
    | .number => showNumber places x
  f.before.getD [] ++ body ++ f.after.getD []

/-- A value as it is shown. Without a style a number keeps up to three decimal places. -/
def showValue (f : Option NumberStyle) : Json.Value → Text
  | .null => []
  | .string s => s
  | .number n =>
    match n.toBinary64?, f with
    | none, _ => n.write
    | some x, none => showNumber ⟨0, 3⟩ x
    | some x, some f => f.display x
  | v => v.write

end MarkdownPrep.Chart
