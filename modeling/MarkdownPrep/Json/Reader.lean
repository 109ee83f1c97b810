import MarkdownPrep.Json.Tree

/-!
# Reading JSON

A document is read character by character. The state of the reader is what it is in the middle
of (`Mode`) and the arrays and objects that are open around it (`Frame`), the innermost first.
A document is accepted when its last character leaves nothing open.

The format is strict: blanks are space, tab, line feed and carriage return, strings hold no raw
control characters, and nothing follows the document but blanks.
-/

namespace MarkdownPrep.Json

/-- An array or object that is open, with its finished parts, the newest first. -/
inductive Frame where
  /-- An array. -/
  | items (before : List Tree)
  /-- An object of which a key is due or was just finished with its value. -/
  | members (before : List (List Glyph × Tree))
  /-- An object of which the value of `key` is due. -/
  | entry (before : List (List Glyph × Tree)) (key : List Glyph)
  deriving Repr

/-- The part of a number that was read last. -/
inductive NumberPart where
  | minus
  /-- A leading zero, after which no digit may follow. -/
  | leadingZero
  | whole
  | point
  | fraction
  /-- The letter of the exponent. -/
  | mark
  /-- The sign of the exponent. -/
  | exponentSign
  | exponent
  deriving DecidableEq, Repr

/-- What the reader is in the middle of. -/
inductive Mode where
  /-- A value is due; the end of the array may come instead if `first`. -/
  | value (first : Bool)
  /-- A key is due; the end of the object may come instead if `first`. -/
  | key (first : Bool)
  /-- The colon after a key is due. -/
  | colon (key : List Glyph)
  /-- A string, read so far with the newest glyph first; a key or a value. -/
  | string (isKey : Bool) (glyphs : List Glyph)
  /-- A string after a backslash. -/
  | escape (isKey : Bool) (glyphs : List Glyph)
  /-- A string in a `\u` escape of which `due` hexadecimal digits are missing. -/
  | hex (isKey : Bool) (glyphs : List Glyph) (due code : Nat)
  /-- A word for a value, of which `rest` is due. -/
  | word (rest : Text) (value : Tree)
  /-- A number. -/
  | number (part : NumberPart) (l : Literal)
  /-- A value of the innermost array or object is finished. -/
  | separator
  /-- The document is finished. -/
  | done (t : Tree)
  deriving Repr

/-- The state of the reader. -/
structure Reader where
  mode : Mode
  frames : List Frame
  deriving Repr

namespace Reader

/-- The state before the first character. -/
def start : Reader := ⟨.value false, []⟩

/-- A blank between the parts of a document. -/
def isSpace (c : Char) : Bool := c = ' ' || c = '\t' || c = '\n' || c = '\r'

/-- The state after a value is finished. -/
def complete (t : Tree) : List Frame → Reader
  | [] => ⟨.done t, []⟩
  | .items before :: frames => ⟨.separator, .items (t :: before) :: frames⟩
  | .entry before key :: frames => ⟨.separator, .members ((key, t) :: before) :: frames⟩
  | .members before :: frames => ⟨.separator, .members before :: frames⟩

/-- The state after the character that follows a finished value. -/
def stepSeparator (r : Reader) (c : Char) : Option Reader :=
  if isSpace c then some r
  else match r.mode, r.frames with
    | .separator, .items before :: frames =>
      if c = ',' then some ⟨.value false, r.frames⟩
      else if c = ']' then some (complete (.array before.reverse) frames)
      else none
    | .separator, .members before :: frames =>
      if c = ',' then some ⟨.key false, r.frames⟩
      else if c = '}' then some (complete (.object before.reverse) frames)
      else none
    | _, _ => none

/-- The part and the literal after one more character of a number, if it goes on. -/
def stepNumber (part : NumberPart) (l : Literal) (c : Char) : Option (NumberPart × Literal) :=
  let isMark := c = 'e' || c = 'E'
  let withWhole := { l with whole := l.whole ++ [c] }
  let withFraction := { l with fraction := some (l.fraction.getD [] ++ [c]) }
  let withExponent :=
    { l with exponent := l.exponent.map fun (negative, ds) => (negative, ds ++ [c]) }
  let marked := { l with exponent := some (false, []) }
  match part with
  | .minus =>
    if c = '0' then some (.leadingZero, withWhole)
    else if c.isDigit then some (.whole, withWhole)
    else none
  | .leadingZero =>
    if c = '.' then some (.point, { l with fraction := some [] })
    else if isMark then some (.mark, marked)
    else none
  | .whole =>
    if c.isDigit then some (.whole, withWhole)
    else if c = '.' then some (.point, { l with fraction := some [] })
    else if isMark then some (.mark, marked)
    else none
  | .point => if c.isDigit then some (.fraction, withFraction) else none
  | .fraction =>
    if c.isDigit then some (.fraction, withFraction)
    else if isMark then some (.mark, marked)
    else none
  | .mark =>
    if c.isDigit then some (.exponent, withExponent)
    else if c = '+' then some (.exponentSign, marked)
    else if c = '-' then some (.exponentSign, { l with exponent := some (true, []) })
    else none
  | .exponentSign | .exponent => if c.isDigit then some (.exponent, withExponent) else none

/-- True when a number may end after a part. -/
def mayEnd (part : NumberPart) : Bool :=
  match part with
  | .whole | .fraction | .exponent => true
  | .leadingZero => true
  | .minus | .point | .mark | .exponentSign => false

/-- The state after the first character of a value. -/
def stepValue (first : Bool) (frames : List Frame) (c : Char) : Option Reader :=
  if isSpace c then some ⟨.value first, frames⟩
  else if c = '[' then some ⟨.value true, .items [] :: frames⟩
  else if c = '\x7b' then some ⟨.key true, .members [] :: frames⟩
  else if c = '"' then some ⟨.string false [], frames⟩
  else if c = 'n' then some ⟨.word "ull".toList .null, frames⟩
  else if c = 't' then some ⟨.word "rue".toList (.bool true), frames⟩
  else if c = 'f' then some ⟨.word "alse".toList (.bool false), frames⟩
  else if c = '-' then some ⟨.number .minus ⟨true, [], none, none⟩, frames⟩
  else if c = '0' then some ⟨.number .leadingZero ⟨false, [c], none, none⟩, frames⟩
  else if c.isDigit then some ⟨.number .whole ⟨false, [c], none, none⟩, frames⟩
  else if c = ']' && first then
    match frames with
    | .items _ :: outer => some (complete (.array []) outer)
    | _ => none
  else none

/-- The state after a string is finished. -/
def finishString (isKey : Bool) (glyphs : List Glyph) (frames : List Frame) : Reader :=
  if isKey then ⟨.colon glyphs.reverse, frames⟩ else complete (.string glyphs.reverse) frames

/-- The character that a short escape stands for. -/
def shortEscape? (c : Char) : Option Char :=
  if c = '"' || c = '\\' || c = '/' then some c
  else if c = 'b' then some '\x08'
  else if c = 'f' then some '\x0c'
  else if c = 'n' then some '\n'
  else if c = 'r' then some '\r'
  else if c = 't' then some '\t'
  else none

/-- The value of a hexadecimal digit. -/
def hexDigit? (c : Char) : Option Nat :=
  if c.isDigit then some (c.toNat - '0'.toNat)
  else if 'a' ≤ c && c ≤ 'f' then some (c.toNat - 'a'.toNat + 10)
  else if 'A' ≤ c && c ≤ 'F' then some (c.toNat - 'A'.toNat + 10)
  else none

/-- The state after one more character, if the document can go on with it. -/
def step (r : Reader) (c : Char) : Option Reader :=
  match r.mode with
  | .value first => stepValue first r.frames c
  | .key first =>
    if isSpace c then some r
    else if c = '"' then some ⟨.string true [], r.frames⟩
    else if c = '}' && first then
      match r.frames with
      | .members _ :: outer => some (complete (.object []) outer)
      | _ => none
    else none
  | .colon key =>
    if isSpace c then some r
    else if c = ':' then
      match r.frames with
      | .members before :: outer => some ⟨.value false, .entry before key :: outer⟩
      | _ => none
    else none
  | .string isKey gs =>
    if c = '"' then some (finishString isKey gs r.frames)
    else if c = '\\' then some ⟨.escape isKey gs, r.frames⟩
    else if c.toNat < 0x20 then none
    else some ⟨.string isKey (.char c :: gs), r.frames⟩
  | .escape isKey gs =>
    if c = 'u' then some ⟨.hex isKey gs 4 0, r.frames⟩
    else (shortEscape? c).map fun d => ⟨.string isKey (.char d :: gs), r.frames⟩
  | .hex isKey gs due code =>
    (hexDigit? c).map fun d =>
      if due ≤ 1 then ⟨.string isKey (.unit (code * 16 + d) :: gs), r.frames⟩
      else ⟨.hex isKey gs (due - 1) (code * 16 + d), r.frames⟩
  | .word rest t =>
    match rest with
    | [] => none
    | [d] => if c = d then some (complete t r.frames) else none
    | d :: ds => if c = d then some ⟨.word ds t, r.frames⟩ else none
  | .number part l =>
    match stepNumber part l c with
    | some (part', l') => some ⟨.number part' l', r.frames⟩
    | none =>
      if mayEnd part then stepSeparator (complete (.number l) r.frames) c else none
  | .separator | .done _ => stepSeparator r c

/-- The state after a text, if a document can start with it. -/
def run (r : Reader) : Text → Option Reader
  | [] => some r
  | c :: s => (step r c).bind fun r' => run r' s

/-- The document that was read, if it may end here. -/
def finish? (r : Reader) : Option Tree :=
  match r.mode, r.frames with
  | .done t, _ => some t
  | .number part l, [] => if mayEnd part then some (.number l) else none
  | _, _ => none

end Reader

/-- Reads a text as a JSON document. -/
def Tree.read? (s : Text) : Option Tree := (Reader.run .start s).bind Reader.finish?

end MarkdownPrep.Json
