import MarkdownPrep.Amount.Bare
import MarkdownPrep.Dollar.Literal
import MarkdownPrep.Offsets.Extent
import MarkdownPrep.Stash.Basic

/-!
# Dollar spans by offset

The dollar spans of a text, found byte by byte, and what the passes do with them.
-/

namespace MarkdownPrep.Offsets

open Text

/-- True when the dollar at an offset may open a span. -/
def opens? (i : Nat) (s : Text) : Option Bool := do
  let free ← (if i = 0 then some true
    else (byteBefore? i s).map fun b => !(b = '\\'.toUInt8 || b = '$'.toUInt8))
  return free && !isAt '$' (i + 1) s

/-- The offset of the dollar that closes a span, looked for from an offset on. -/
def closer? (s : Text) : Nat → Nat → Option (Option Nat)
  | 0, _ => none
  | fuel + 1, i =>
    if s.bytes.length ≤ i then some none
    else if isAt '\n' i s then some none
    else if isAt '$' i s then do
      if (← byteBefore? i s) = '\\'.toUInt8 then closer? s fuel (i + 1)
      else return if isAt '$' (i + 1) s then none else some i
    else closer? s fuel (i + 1)

/-- The dollar spans from an offset on. -/
def spansFrom? (s : Text) : Nat → Nat → Option (List Extent)
  | 0, _ => none
  | fuel + 1, i =>
    if s.bytes.length ≤ i then some []
    else if !isAt '$' i s then spansFrom? s fuel (i + 1)
    else do
      if ← opens? i s then
        match ← closer? s (s.bytes.length + 1) (i + 1) with
        | some j =>
          let spans ← spansFrom? s fuel (j + 1)
          return ⟨i, j + 1⟩ :: spans
        | none => spansFrom? s fuel (i + 1)
      else spansFrom? s fuel (i + 1)

/-- The dollar spans of a text in order. -/
def spans? (s : Text) : Option (List Extent) := spansFrom? s (s.bytes.length + 1) 0

/-- The text between the dollars of a span. -/
def Extent.inner? (e : Extent) (s : Text) : Option Text := slice? (e.start + 1) (e.stop - 1) s

/-- Puts a span aside if it is more than an amount. -/
def hideSpan? (s : Text) (_ : Nat) (span : Extent) (st : Stash) :
    Option (Option (Nat × Text × Stash)) := do
  if Amount.isBare (trim (← span.inner? s)) then return none
  else
    let (token, st) := st.put .inlineMath (← span.text? s)
    return some (span.start, token, st)

/-- Puts the dollar spans of a text aside that are more than an amount. -/
def hideInlineMath? (s : Text) (st : Stash) : Option (Text × Stash) := do
  let spans ← spans? s
  if spans.isEmpty then return (s, st) else rewriteFrom? (hideSpan? s) s 0 [] st spans

/-- A span without a token in it, and whether its interior reads as math. -/
def classify? (sentinel : Char) (s : Text) (span : Extent) : Option (List (Extent × Bool)) := do
  if (← span.text? s).contains sentinel then return []
  else return [(span, Dollar.readsAsMath (← span.inner? s))]

/-- Escapes the dollars of a span. -/
def escapeSpan? (s : Text) (_ : Nat) (span : Extent) (_ : Unit) :
    Option (Option (Nat × Text × Unit)) := do
  let interior ← span.inner? s
  return some (span.start, "\\$".toList ++ interior ++ "\\$".toList, ())

/-- The text with the literal dollars of its spans escaped. -/
def escapeLiteral? (sentinel : Char) (s : Text) : Option Text := do
  let classified ← collect? (classify? sentinel s) (← spans? s)
  let literal := (classified.filter (!·.2)).map (·.1)
  return (← rewriteFrom? (escapeSpan? s) s 0 [] () literal).1

end MarkdownPrep.Offsets
