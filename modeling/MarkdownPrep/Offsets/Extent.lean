import MarkdownPrep.Text.Bytes

/-!
# Stretches by offset

A pass over the stretches of a text that are given by their offsets, from left to right.
-/

namespace MarkdownPrep.Offsets

open Text

/-- The results of `f` on the members of a list, one after another. -/
def collect? (f : α → Option (List β)) : List α → Option (List β)
  | [] => some []
  | a :: as => do
    let bs ← f a
    let rest ← collect? f as
    return bs ++ rest

/-- The offsets of the two ends of a stretch. -/
structure Extent where
  start : Nat
  stop : Nat
  deriving DecidableEq, Repr

/-- The text of a stretch. -/
def Extent.text? (e : Extent) (s : Text) : Option Text := slice? e.start e.stop s

/-- Rewrites stretches of the text `s`. What stands before the offset `cursor` is done with, and
`out` is what it has become. Of a stretch `act` tells, given the cursor and the state so far, from
which offset on it is replaced, by what, and the state after it; or that it is left alone. -/
def rewriteFrom? (act : Nat → Extent → σ → Option (Option (Nat × Text × σ))) (s : Text) :
    Nat → Text → σ → List Extent → Option (Text × σ)
  | cursor, out, st, [] => do
    let rest ← from? cursor s
    return (out ++ rest, st)
  | cursor, out, st, e :: es => do
    match ← act cursor e st with
    | none => rewriteFrom? act s cursor out st es
    | some (start, new, st) =>
      let before ← slice? cursor start s
      rewriteFrom? act s e.stop (out ++ before ++ new) st es

end MarkdownPrep.Offsets
