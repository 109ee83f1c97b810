import MarkdownPrep.Binary64.Shortest
import MarkdownPrep.Json.Number

/-!
# JSON values and their text

`Value.write` writes a value without blanks. Members are written in the order they have. Strings
escape the quote, the backslash and the control characters below the space, and nothing else.

A binary64 number is written with the fewest digits that read back: positionally with at least
one decimal place when its magnitude is zero or from 10⁻⁵ up to below 10¹⁶, otherwise with an
exponent that has a sign and no places after a lone digit.
-/

namespace MarkdownPrep.Json

/-- A JSON value. -/
inductive Value where
  | null
  | bool (b : Bool)
  | number (n : Number)
  | string (s : Text)
  | array (items : List Value)
  | object (members : List (Text × Value))
  deriving Repr

/-- The text of an integer. -/
def writeInt (n : Int) : Text :=
  if n < 0 then '-' :: Nat.toDigits 10 n.natAbs else Nat.toDigits 10 n.natAbs

/-- The text of a magnitude whose digits start at the power `exponent` of ten. -/
def writeMagnitude (ds : Text) (exponent : Int) : Text :=
  if exponent < -5 || 16 ≤ exponent then
    let places := if ds.length ≤ 1 then [] else '.' :: ds.drop 1
    let sign := if exponent < 0 then '-' else '+'
    ds.take 1 ++ places ++ ['e', sign] ++ Nat.toDigits 10 exponent.natAbs
  else if exponent < 0 then
    "0.".toList ++ List.replicate (exponent.natAbs - 1) '0' ++ ds
  else
    let count := exponent.toNat + 1
    let places := if ds.length ≤ count then ['0'] else ds.drop count
    ds.take count ++ List.replicate (count - ds.length) '0' ++ '.' :: places

/-- The text of a binary64 number. -/
def writeFloat (x : Binary64) : Text :=
  let sign := if x.negative then ['-'] else []
  if x.isZero then sign ++ "0.0".toList
  else
    let d := Binary64.shortest x.code
    let all := Nat.toDigits 10 d.digits
    sign ++ writeMagnitude (Binary64.significant d.digits) (d.exponent + all.length - 1)

/-- The text of a number. -/
def Number.write : Number → Text
  | int n => writeInt n
  | float x => writeFloat x

/-- The hexadecimal digit of a number below sixteen. -/
def hexDigit (n : Nat) : Char := Nat.digitChar n

/-- A character as it stands in a string. -/
def writeChar (c : Char) : Text :=
  if c = '"' then ['\\', '"']
  else if c = '\\' then ['\\', '\\']
  else if c = '\x08' then ['\\', 'b']
  else if c = '\t' then ['\\', 't']
  else if c = '\n' then ['\\', 'n']
  else if c = '\x0c' then ['\\', 'f']
  else if c = '\r' then ['\\', 'r']
  else if c.toNat < 0x20 then
    "\\u00".toList ++ [hexDigit (c.toNat / 16), hexDigit (c.toNat % 16)]
  else [c]

/-- The text of a string. -/
def writeString (s : Text) : Text := '"' :: s.flatMap writeChar ++ ['"']

mutual

/-- The text of a value. -/
def Value.write : Value → Text
  | .null => "null".toList
  | .bool true => "true".toList
  | .bool false => "false".toList
  | .number n => n.write
  | .string s => writeString s
  | .array items => '[' :: writeItems items ++ [']']
  | .object members => '\x7b' :: writeMembers members ++ ['\x7d']

/-- The texts of the items of an array with commas between. -/
def writeItems : List Value → Text
  | [] => []
  | [v] => v.write
  | v :: vs => v.write ++ ',' :: writeItems vs

/-- The texts of the members of an object with commas between. -/
def writeMembers : List (Text × Value) → Text
  | [] => []
  | [(k, v)] => writeString k ++ ':' :: v.write
  | (k, v) :: ms => writeString k ++ ':' :: v.write ++ ',' :: writeMembers ms

end

/-- An object of the members that are present. -/
def Value.ofMembers (members : List (Option (Text × Value))) : Value :=
  .object (members.filterMap id)

end MarkdownPrep.Json
