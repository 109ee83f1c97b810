import MarkdownPrep.Offsets.Extent
import MarkdownPrep.Wrap.Basic

/-!
# Wrapping by offset

The candidates for wrapping, searched for from an offset on, and wrapped.
-/

namespace MarkdownPrep.Offsets

open Text

/-- A candidate with the white space characters next to it, and its expression alone. -/
structure Capture where
  whole : Extent
  expr : Extent

/-- The candidate whose expression of `n` characters starts at the offset `i`, with what follows
it in `s`. The candidate starts at `start`. -/
def Capture.ofLength (start i : Nat) (s : Text) (n : Nat) : Capture :=
  let stop := i + utf8Size (s.take n)
  ⟨⟨start, stop + utf8Size ((s.drop n).take 1)⟩, ⟨i, stop⟩⟩

/-- The first candidate of a text that starts at the offset `i`. A candidate starts with white
space, or at the start of the whole text. -/
def captureFrom (candidate : Text → Option Nat) (i : Nat) : Text → Option Capture
  | [] => if i = 0 then (candidate []).map (Capture.ofLength i i []) else none
  | c :: s =>
    let atStart := if i = 0 then (candidate (c :: s)).map (Capture.ofLength i i (c :: s)) else none
    let atBlank := if isBlank c then
        (candidate s).map (Capture.ofLength i (i + c.utf8Size) s)
      else none
    (atStart.or atBlank).or (captureFrom candidate (i + c.utf8Size) s)

/-- The first candidate from an offset on. -/
def capture? (candidate : Text → Option Nat) (i : Nat) (s : Text) : Option (Option Capture) :=
  (from? i s).map (captureFrom candidate i)

/-- Wraps the candidates of one kind from the offset `i` on. What stands before the offset `cursor`
is done with, and `out` is what it has become. -/
def wrapFrom? (candidate : Text → Option Nat) (sentinel : Char) (s : Text) :
    Nat → Nat → Nat → Text → Option Text
  | 0, _, _, _ => none
  | fuel + 1, cursor, i, out => do
    match ← capture? candidate i s with
    | none =>
      let rest ← from? cursor s
      return out ++ rest
    | some cap =>
      let whole ← cap.whole.text? s
      let expr ← cap.expr.text? s
      if Wrap.qualifies sentinel whole (trim expr) then
        let body := trimEnd expr
        let before ← slice? cursor cap.expr.start s
        wrapFrom? candidate sentinel s fuel (cap.expr.start + utf8Size body) cap.expr.stop
          (out ++ before ++ '$' :: body ++ ['$'])
      else wrapFrom? candidate sentinel s fuel cursor cap.expr.stop out

/-- Wraps the candidates of one kind. -/
def wrapAll? (candidate : Text → Option Nat) (sentinel : Char) (s : Text) : Option Text :=
  wrapFrom? candidate sentinel s (s.bytes.length + 1) 0 0 []

/-- Wraps bare equations, fractions, functions and formulas in dollars. -/
def wrapBareMath? (sentinel : Char) (s : Text) : Option Text :=
  Wrap.candidates.foldlM (fun s candidate => wrapAll? candidate sentinel s) s

end MarkdownPrep.Offsets
