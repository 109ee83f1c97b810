import MarkdownPrep.Json.Number

/-!
# JSON trees

A tree is a JSON document as it is written: members in order and with repeated keys, numbers as
literals, and escapes in strings not yet put together. What is wrong with a number or an escape
matters only where the tree is decoded; a part that nobody asks for may hold them.
-/

namespace MarkdownPrep.Json

/-- A character of a string as it is written. -/
inductive Glyph where
  /-- A character, or one of the short escapes for it. -/
  | char (c : Char)
  /-- A `\u` escape: one UTF-16 unit. -/
  | unit (code : Nat)
  deriving DecidableEq, Repr

namespace Glyph

/-- True for the first unit of a surrogate pair. -/
def isHighSurrogate (code : Nat) : Bool := 0xD800 ≤ code && code < 0xDC00

/-- True for the second unit of a surrogate pair. -/
def isLowSurrogate (code : Nat) : Bool := 0xDC00 ≤ code && code < 0xE000

/-- The character of a surrogate pair. -/
def ofPair (high low : Nat) : Char :=
  Char.ofNat (0x10000 + (high - 0xD800) * 0x400 + (low - 0xDC00))

/-- The text of a string; none when a surrogate has no partner. -/
def text? : List Glyph → Option Text
  | [] => some []
  | char c :: gs => (text? gs).map (c :: ·)
  | unit high :: unit low :: gs =>
    if isHighSurrogate high then
      if isLowSurrogate low then (text? gs).map (ofPair high low :: ·) else none
    else if isLowSurrogate high then none
    else (text? (unit low :: gs)).map (Char.ofNat high :: ·)
  | unit code :: gs =>
    if isHighSurrogate code || isLowSurrogate code then none
    else (text? gs).map (Char.ofNat code :: ·)

end Glyph

/-- A JSON document as it is written. -/
inductive Tree where
  | null
  | bool (b : Bool)
  | number (l : Literal)
  | string (gs : List Glyph)
  | array (items : List Tree)
  | object (members : List (List Glyph × Tree))
  deriving Repr

end MarkdownPrep.Json
