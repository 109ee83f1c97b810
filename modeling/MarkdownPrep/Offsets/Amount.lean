import MarkdownPrep.Amount.Grammar
import MarkdownPrep.Offsets.Extent
import MarkdownPrep.Stash.Basic
import MarkdownPrep.Text.Alphanumeric

/-!
# Amounts by offset

The amounts of a text, found with byte offsets: a reader gives the offsets where what it reads may
end, the longest way to read it first. Everything here fails (`none`) if the text would have to be
cut or looked at where that cannot be done, and a loop fails if it does not come to its end.
-/

namespace MarkdownPrep.Offsets

open Text

/-- True for the bytes of the digits. -/
def isDigitByte (b : UInt8) : Bool := '0'.toUInt8 ≤ b && b ≤ '9'.toUInt8

/-- The number of digits at an offset. -/
def digits? (i : Nat) (s : Text) : Option Nat :=
  (bytesFrom? i s).map fun bs => (bs.takeWhile isDigitByte).length

/-- True when a space or tab is at an offset. -/
def isSpaceAt (i : Nat) (s : Text) : Bool := isAt ' ' i s || isAt '\t' i s

/-- The offset after a space or tab, if one is there. -/
def skipSpace (i : Nat) (s : Text) : Nat := if isSpaceAt i s then i + 1 else i

/-- The end of a word at an offset, ASCII case aside. -/
def wordEnd? (i : Nat) (s word : Text) : Option (List Nat) := do
  let rest ← from? i s
  let size := utf8Size word
  if size ≤ utf8Size rest && (splitAt? size rest).isSome then
    let front ← slice? 0 size rest
    return if eqIgnoringCase front word then [i + size] else []
  else return []

/-- The ends of the magnitudes at an offset. -/
def magnitudeEnds? (i : Nat) (s : Text) : Option (List Nat) := do
  let words ← collect? (wordEnd? i s) Amount.magnitudeWords
  let letters := if Amount.magnitudeLetters.any (isAt · i s) then [i + 1] else []
  return words ++ letters

/-- The ends of an optional magnitude, which may follow one space or tab. -/
def suffixEnds? (i : Nat) (s : Text) : Option (List Nat) := do
  let spaced ← (if isSpaceAt i s then magnitudeEnds? (i + 1) s else some [])
  let close ← magnitudeEnds? i s
  return spaced ++ close ++ [i]

/-- The ends of the thousands groups at an offset, the shortest first. -/
def groupEnds? (s : Text) : Nat → Nat → Option (List Nat)
  | 0, _ => none
  | fuel + 1, i =>
    if isAt ',' i s then do
      let count ← digits? (i + 1) s
      if count = 3 then
        let ends ← groupEnds? s fuel (i + 4)
        return i :: ends
      else return [i]
    else return [i]

/-- The ends of an optional fraction. -/
def fractionEnds? (i : Nat) (s : Text) : Option (List Nat) :=
  if isAt '.' i s then do
    let count ← digits? (i + 1) s
    return if 0 < count then [i + 1 + count, i] else [i]
  else some [i]

/-- The ends of a parenthesis that may be missing and of an optional magnitude after it. -/
def closedEnds? (i : Nat) (s : Text) : Option (List Nat) := do
  let closed ← (if isAt ')' i s then suffixEnds? (i + 1) s else some [])
  let bare ← suffixEnds? i s
  return closed ++ bare

/-- The ends of a grouped figure. -/
def groupedEnds? (i : Nat) (s : Text) : Option (List Nat) := do
  let i := if isAt '(' i s then i + 1 else i
  let lead ← digits? i s
  if lead = 0 || 3 < lead then return []
  else
    let groups ← groupEnds? s (s.bytes.length + 1) (i + lead)
    collect? (fun i => do collect? (closedEnds? · s) (← fractionEnds? i s)) groups.reverse

/-- The ends of a plain figure. -/
def plainEnds? (i : Nat) (s : Text) : Option (List Nat) := do
  let i := if isAt '-' i s then i + 1 else i
  let count ← digits? i s
  if count = 0 then return []
  else collect? (suffixEnds? · s) (← fractionEnds? (i + count) s)

/-- The first of some ends that no letter, digit or underscore follows. -/
def firstEnd? (s : Text) : List Nat → Option (Option Nat)
  | [] => some none
  | i :: ends => do
    let runsOn ← (if s.bytes.length ≤ i then some false else (from? i s).map startsWithName)
    if runsOn then firstEnd? s ends else return some i

/-- True when the byte before an offset is a backslash. -/
def isEscaped? (i : Nat) (s : Text) : Option Bool :=
  if i = 0 then some false else (byteBefore? i s).map (· = '\\'.toUInt8)

/-- The end of the amount whose dollar is at an offset, if there is one. -/
def dollarEnd? (negative : Bool) (i : Nat) (s : Text) : Option (Option Nat) := do
  if !isAt '$' i s then return none
  else if ← isEscaped? i s then return none
  else
    let grouped ← groupedEnds? (i + 1) s
    let plain ← (if negative then some [] else plainEnds? (i + 1) s)
    firstEnd? s (grouped ++ plain)

/-- The end of the amount at an offset, if there is one. -/
def amountEnd? (start : Nat) (s : Text) : Option (Option Nat) :=
  if isAt '-' start s then dollarEnd? true (start + 1) s else dollarEnd? false start s

/-- The offset after the dash of a range, which may stand after one space or tab. -/
def dashEnd? (i : Nat) (s : Text) : Option (Option Nat) := do
  let i := skipSpace i s
  match (← from? i s).head? with
  | some '-' => return some (i + 1)
  | some '–' => return some (i + '–'.utf8Size)
  | _ => return none

/-- The offsets of a range: the end of its left side, the start of its right side and the end of
that. -/
structure Range where
  leftEnd : Nat
  rightStart : Nat
  rightEnd : Nat

/-- The range at an offset, if there is one. -/
def range? (start : Nat) (s : Text) : Option (Option Range) := do
  match ← amountEnd? start s with
  | none => return none
  | some leftEnd =>
    match ← dashEnd? leftEnd s with
    | none => return none
    | some i =>
      let rightStart := skipSpace i s
      match ← amountEnd? rightStart s with
      | none => return none
      | some rightEnd => return some ⟨leftEnd, rightStart, rightEnd⟩

/-- Puts the range or the amount at the offset `i` aside, if there is one. What stands before the
offset `cursor` is done with, and `out` is what it has become. The result is the offset up to which
the text is done with then, what it has become, and the stash. -/
def hideAmountAt? (s : Text) (cursor i : Nat) (out : Text) (st : Stash) :
    Option (Option (Nat × Text × Stash)) := do
  match ← range? i s with
  | some r =>
    let before ← slice? cursor i s
    let left ← slice? i r.leftEnd s
    let (token, st) := st.put .currency left
    let gap ← slice? r.leftEnd r.rightStart s
    let right ← slice? r.rightStart r.rightEnd s
    let (token', st) := st.put .currency right
    return some (r.rightEnd, out ++ before ++ token ++ gap ++ token', st)
  | none =>
    match ← amountEnd? i s with
    | some stop =>
      let before ← slice? cursor i s
      let amount ← slice? i stop s
      let (token, st) := st.put .currency amount
      return some (stop, out ++ before ++ token, st)
    | none => return none

/-- Puts aside the amounts from the offset `i` on. -/
def hideAmountsFrom? (s : Text) : Nat → Nat → Nat → Text → Stash → Option (Text × Stash)
  | 0, _, _, _, _ => none
  | fuel + 1, cursor, i, out, st =>
    if s.bytes.length ≤ i then do
      let rest ← from? cursor s
      return (out ++ rest, st)
    else if !isAt '$' i s && !isAt '-' i s then hideAmountsFrom? s fuel cursor (i + 1) out st
    else do
      match ← hideAmountAt? s cursor i out st with
      | some (stop, out, st) => hideAmountsFrom? s fuel stop stop out st
      | none => hideAmountsFrom? s fuel cursor (i + 1) out st

/-- Puts every amount of a text aside. -/
def hideAmounts? (s : Text) (st : Stash) : Option (Text × Stash) :=
  hideAmountsFrom? s (s.bytes.length + 1) 0 0 [] st

end MarkdownPrep.Offsets
