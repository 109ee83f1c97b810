import MarkdownPrep.Text.Basic

/-!
# Cutting a text into pieces

A pass over a text looks for certain stretches and acts on them alone. Here the two halves are
kept apart. A `Recogniser` says what can be taken off the front of a text at a place; `cut` runs
it from left to right, so of overlapping stretches the leftmost is taken, and gives a list of
pieces: characters that are kept and stretches that were found. What a pass then does with the
found stretches is a function on the pieces, such as `mapFound`, `retain` or `spans`.

Main statement: a recogniser that only takes off what is there (`Recogniser.Honest`) cuts a text
into pieces that put together are the text (`source_cut`).
-/

namespace MarkdownPrep

/-- A piece of a cut text. -/
inductive Piece where
  /-- A character that no stretch covers. -/
  | kept (c : Char)
  /-- A stretch that was found. -/
  | found (t : Text)
  deriving DecidableEq, Repr

namespace Piece

/-- The text that a piece was cut from. -/
def source : Piece → Text
  | kept c => [c]
  | found t => t

/-- The text that a list of pieces was cut from. -/
def sources (ps : List Piece) : Text := ps.flatMap source

@[simp] theorem sources_nil : sources [] = [] := rfl

@[simp] theorem sources_cons (p : Piece) (ps : List Piece) :
    sources (p :: ps) = p.source ++ sources ps := by simp [sources]

@[simp] theorem sources_append (ps qs : List Piece) :
    sources (ps ++ qs) = sources ps ++ sources qs := by simp [sources]

/-- A text of which nothing was found. -/
def keep (s : Text) : List Piece := s.map kept

@[simp] theorem sources_keep (s : Text) : sources (keep s) = s := by
  induction s <;> simp_all [keep, sources, source]

/-- The text with each found stretch `t` replaced by `f t`. -/
def mapFound (f : Text → Text) (ps : List Piece) : Text :=
  ps.flatMap fun
    | kept c => [c]
    | found t => f t

/-- The pieces with only those stretches still found that satisfy `p`. -/
def retain (p : Text → Bool) (ps : List Piece) : List Piece :=
  ps.flatMap fun
    | kept c => [kept c]
    | found t => if p t then [found t] else keep t

@[simp] theorem sources_retain (p : Text → Bool) (ps : List Piece) :
    sources (retain p ps) = sources ps := by
  induction ps with
  | nil => rfl
  | cons q ps ih =>
    rw [sources_cons, ← ih]
    cases q with
    | kept c => simp [retain, source]
    | found t => by_cases h : p t <;> simp [retain, source, h]

/-- The found stretches in order. -/
def founds (ps : List Piece) : List Text :=
  ps.filterMap fun
    | kept _ => none
    | found t => some t

end Piece

/-- A stretch of a text with its place: the UTF-8 byte offsets of its two ends. -/
structure Span where
  start : Nat
  stop : Nat
  text : Text
  deriving DecidableEq, Repr

/-- The places of the found stretches, the first piece starting at byte `start`. -/
def Piece.spansFrom (start : Nat) : List Piece → List Span
  | [] => []
  | .kept c :: ps => spansFrom (start + c.utf8Size) ps
  | .found t :: ps =>
    ⟨start, start + Text.utf8Size t, t⟩ :: spansFrom (start + Text.utf8Size t) ps

/-- The places of the found stretches. -/
def Piece.spans (ps : List Piece) : List Span := spansFrom 0 ps

/-- What can be taken off the front of a text, given the character before it. -/
abbrev Recogniser := Option Char → Text → Option (List Piece)

namespace Recogniser

/-- A recogniser takes off a front part of the text, and never nothing. -/
def Honest (r : Recogniser) : Prop :=
  ∀ before s ps, r before s = some ps → Piece.sources ps ≠ [] ∧ Piece.sources ps <+: s

/-- The recogniser of the shortest stretch that `first` opens and `last` closes. -/
def enclosed (first last : Text) : Recogniser := fun _ s =>
  if first.isPrefixOf s then
    (Text.upTo last (s.drop first.length)).map fun body => [.found (first ++ body ++ last)]
  else none

theorem honest_enclosed {first : Text} (h : first ≠ []) (last : Text) :
    (enclosed first last).Honest := by
  intro _ s ps hps
  simp only [enclosed] at hps
  split at hps
  · next hp =>
    obtain ⟨u, rfl⟩ := List.isPrefixOf_iff_prefix.1 hp
    obtain ⟨body, hb, rfl⟩ := Option.map_eq_some_iff.1 hps
    rw [List.drop_left] at hb
    obtain ⟨v, hv⟩ := Text.append_prefix_of_upTo hb
    exact ⟨by simp [Piece.source, h], v, by simp [Piece.source, ← hv]⟩
  · simp at hps

end Recogniser

namespace Text

/-- The pieces of a text after `covered` more characters that are already part of a piece. -/
def cutFrom (r : Recogniser) (before : Option Char) (covered : Nat) : Text → List Piece
  | [] => []
  | c :: s =>
    match covered with
    | n + 1 => cutFrom r (some c) n s
    | 0 =>
      match r before (c :: s) with
      | some ps => ps ++ cutFrom r (some c) ((Piece.sources ps).length - 1) s
      | none => .kept c :: cutFrom r (some c) 0 s

/-- The pieces into which a recogniser cuts a text, from left to right. -/
def cut (r : Recogniser) (s : Text) : List Piece := cutFrom r none 0 s

theorem sources_cutFrom {r : Recogniser} (hr : r.Honest) (s : Text) :
    ∀ before covered, Piece.sources (cutFrom r before covered s) = s.drop covered := by
  induction s with
  | nil => intro before covered; simp [cutFrom]
  | cons c s ih =>
    intro before covered
    cases covered with
    | succ n => simpa [cutFrom] using ih (some c) n
    | zero =>
      simp only [cutFrom]
      split
      · next ps h =>
        obtain ⟨hne, t, ht⟩ := hr _ _ _ h
        rw [Piece.sources_append, ih]
        cases hps : Piece.sources ps with
        | nil => exact absurd hps hne
        | cons d u =>
          rw [hps] at ht
          obtain ⟨rfl, rfl⟩ := List.cons.inj ht
          simp
      · simp [Piece.source, ih]

/-- The pieces of a text put together are the text. -/
theorem source_cut {r : Recogniser} (hr : r.Honest) (s : Text) :
    Piece.sources (cut r s) = s := sources_cutFrom hr s none 0

end Text

end MarkdownPrep
