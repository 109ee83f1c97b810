import MarkdownPrep.Fence.Line
import MarkdownPrep.Offsets.Extent
import MarkdownPrep.Stash.Basic
import MarkdownPrep.Text.Lines

/-!
# Fenced blocks by offset

The fenced blocks of a text, found line by line with the byte offsets of the lines, and put aside.
-/

namespace MarkdownPrep.Offsets

open Text Fence

/-- A line without its indent of at most three spaces. -/
def unindent? (line : Text) : Option Text :=
  from? ((line.bytes.take 3).takeWhile (· = ' '.toUInt8)).length line

/-- Reads a line as the opening of a fence. -/
def opening? (line : Text) : Option (Option Opening) := do
  match ← unindent? line with
  | [] => return none
  | marker :: rest =>
    let count := ((marker :: rest).takeWhile (· = marker)).length
    if !(marker = '`' || marker = '~') || count < 3 then return none
    else
      let info := trim (← from? count (marker :: rest))
      if marker = '`' && info.contains '`' then return none
      else return some ⟨marker, count, firstWord? info⟩

/-- True when a line closes the fence that `o` opens. -/
def endsAt? (o : Opening) (line : Text) : Option Bool := do
  let rest := trimEnd (← unindent? line)
  return o.length ≤ rest.length && rest.all (· = o.marker)

/-- The blocks of some lines that start at the offset `i`, given the block that is open, if any,
with its start. The text ends at the offset `stop`. -/
def blocksFrom? (stop : Nat) : Option (Opening × Nat) → Nat → List Text → Option (List Extent)
  | none, _, [] => some []
  | some (_, start), _, [] => some [⟨start, stop⟩]
  | none, i, line :: lines => do
    let o ← opening? (dropOneEnd '\n' line)
    blocksFrom? stop (o.map (·, i)) (i + utf8Size line) lines
  | some (o, start), i, line :: lines => do
    if ← endsAt? o (dropOneEnd '\n' line) then
      let blocks ← blocksFrom? stop none (i + utf8Size line) lines
      return ⟨start, i + utf8Size line⟩ :: blocks
    else blocksFrom? stop (some (o, start)) (i + utf8Size line) lines

/-- The fenced blocks of a text in order. -/
def blocks? (s : Text) : Option (List Extent) := blocksFrom? (utf8Size s) none 0 (fullLines s)

/-- Puts a block aside with the newline before it, which is looked for behind the cursor. -/
def hideBlock? (s : Text) (cursor : Nat) (block : Extent) (st : Stash) :
    Option (Option (Nat × Text × Stash)) := do
  let afterNewline ← (if cursor < block.start then
      (byteBefore? block.start s).map (decide <| · = '\n'.toUInt8)
    else some false)
  let start := if afterNewline then block.start - 1 else block.start
  let fenced ← slice? start block.stop s
  let (token, st) := st.put .fencedCode fenced
  return some (start, token, st)

/-- Puts every fenced block of a text aside. -/
def hideBlocks? (s : Text) (st : Stash) : Option (Text × Stash) := do
  let blocks ← blocks? s
  if blocks.isEmpty then return (s, st) else rewriteFrom? (hideBlock? s) s 0 [] st blocks

end MarkdownPrep.Offsets
