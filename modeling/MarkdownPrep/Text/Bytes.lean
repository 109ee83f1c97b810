import MarkdownPrep.Text.Basic

/-!
# Bytes and offsets

A text in UTF-8 bytes, and what is at a byte offset in it. To cut a text at an offset fails if the
offset is past the end or inside a character, and so does to cut from an offset to an earlier one.
-/

namespace MarkdownPrep.Text

/-- The bytes of a text in UTF-8. -/
def bytes (s : Text) : List UInt8 := s.flatMap String.utf8EncodeChar

/-- The byte at an offset. -/
def byte? (i : Nat) (s : Text) : Option UInt8 := s.bytes[i]?

/-- True when the byte at an offset is the ASCII character `a`. -/
def isAt (a : Char) (i : Nat) (s : Text) : Bool := byte? i s = some a.toUInt8

/-- The byte before an offset. -/
def byteBefore? (i : Nat) (s : Text) : Option UInt8 := if i = 0 then none else byte? (i - 1) s

/-- The bytes from an offset on. -/
def bytesFrom? (i : Nat) (s : Text) : Option (List UInt8) :=
  if i ≤ s.bytes.length then some (s.bytes.drop i) else none

/-- The text before and the text from an offset on. -/
def splitAt? (i : Nat) : Text → Option (Text × Text)
  | [] => if i = 0 then some ([], []) else none
  | c :: s =>
    if i = 0 then some ([], c :: s)
    else if c.utf8Size ≤ i then (splitAt? (i - c.utf8Size) s).map fun (t, u) => (c :: t, u)
    else none

/-- The text from an offset on. -/
def from? (i : Nat) (s : Text) : Option Text := (splitAt? i s).map (·.2)

/-- The text between two offsets. -/
def slice? (i j : Nat) (s : Text) : Option Text :=
  if i ≤ j then (from? i s).bind fun t => (splitAt? (j - i) t).map (·.1) else none

end MarkdownPrep.Text
