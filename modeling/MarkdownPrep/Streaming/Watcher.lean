import MarkdownPrep.Chart.Dialect
import MarkdownPrep.Streaming.Unfinished

/-!
# Watching a chart arrive

While a chart block is arriving, it fails to read most of the time. A watcher is shown its text
again and again, each time with the time in milliseconds, and tells whether the text is to be
taken as final (`Watcher.watch`): it is if it does not look unfinished, if it has not changed for
a while, or if the wait has become too long. `Watcher.examine` reports the errors of a text only
once it is final. A time before an earlier one counts as no time passed.
-/

namespace MarkdownPrep.Streaming

open Chart

/-- The waits of a watcher in milliseconds. -/
structure Waits where
  /-- How long a text must stay as it is to be taken as final. -/
  stable : Nat := 400
  /-- How long a text may look unfinished at most. -/
  longest : Nat := 5000
  /-- How close together changes are that count as rapid. -/
  rapid : Nat := 150
  deriving DecidableEq, Repr

/-- What a watcher tells of a text. -/
inductive Verdict where
  | final
  /-- The text looks unfinished. -/
  | waiting
  /-- The text looks unfinished and is changing fast. -/
  | rapid
  deriving DecidableEq, Repr

/-- What is remembered of the texts that were shown. -/
structure Sighting where
  /-- The text shown last. -/
  text : Text
  /-- When the first text was shown. -/
  first : Nat
  /-- When the text became what it is. -/
  changed : Nat
  /-- When the text before it became what it was, if there was one. -/
  changedBefore : Option Nat
  deriving DecidableEq, Repr

/-- What is remembered after one more text. -/
def Sighting.next (seen : Option Sighting) (text : Text) (now : Nat) : Sighting :=
  match seen with
  | none => ⟨text, now, now, none⟩
  | some s => if s.text = text then s else ⟨text, s.first, now, some s.changed⟩

/-- What is told of a text that was just shown; `isNew` when it differs from the one before. -/
def Sighting.verdict (s : Sighting) (waits : Waits) (isNew : Bool) (now : Nat) : Verdict :=
  if !isUnfinished s.text || waits.stable ≤ now - s.changed || waits.longest ≤ now - s.first then
    .final
  else if isNew && s.changedBefore.any (now - · ≤ waits.rapid) then .rapid
  else .waiting

/-- A watcher of one block. -/
structure Watcher where
  waits : Waits := {}
  seen : Option Sighting := none
  deriving DecidableEq, Repr

/-- What became of a chart block. -/
inductive Outcome where
  | ready (c : Description)
  /-- It cannot be drawn, but is probably still arriving. -/
  | pending
  | failed (e : Error)
  deriving Repr

/-- Reads a chart block and checks it. -/
def readChart (text tag : Text) : Except Error Description := do
  let c ← Description.read text tag
  c.check
  return c

namespace Watcher

/-- The watcher with all texts forgotten. -/
def reset (w : Watcher) : Watcher := { waits := w.waits }

/-- Shows a text to the watcher. -/
def watch (w : Watcher) (text : Text) (now : Nat) : Verdict × Watcher :=
  let s := Sighting.next w.seen text now
  (s.verdict w.waits (w.seen.map (·.text) ≠ some text) now, { w with seen := some s })

/-- Reads a chart block, its errors held back until the watcher takes the text as final. -/
def examine (w : Watcher) (text tag : Text) (now : Nat) : Outcome × Watcher :=
  let (verdict, w) := w.watch text now
  (match readChart text tag, verdict with
    | .ok c, _ => .ready c
    | .error e, .final => .failed e
    | .error _, _ => .pending, w)

end Watcher

end MarkdownPrep.Streaming
