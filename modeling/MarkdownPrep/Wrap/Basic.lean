import MarkdownPrep.Text.Cut
import MarkdownPrep.Wrap.Candidate

/-!
# Wrapping bare math

Expressions that nobody delimited are wrapped in dollars when they read as math or as a chemical
formula. A candidate starts at the start of the text or after white space and ends before white
space or at the end. One that touches a dollar or the sentinel is left alone, and so is a single
letter.
-/

namespace MarkdownPrep

namespace Wrap

/-- True when an expression holds a character of math notation. -/
def hasMathSign (expr : Text) : Bool :=
  expr.any fun c => c = '\\' || c = '^' || c = '_' || c = '+' || c = '=' || c = '<' || c = '>'

/-- True when an expression reads as a formula: a digit, a parenthesis, or two capitals and a
small letter, all of them ASCII. -/
def readsAsFormula (expr : Text) : Bool :=
  expr.any Char.isDigit || expr.any (fun c => c = '(' || c = ')') ||
    2 ≤ expr.countP Char.isUpper && 0 < expr.countP Char.isLower

/-- True when an expression is one ASCII letter. -/
def isLetter : Text → Bool
  | [c] => c.isAlpha
  | _ => false

/-- Decides whether an expression is wrapped; `neighbourhood` is the expression with the white
space characters next to it. -/
def qualifies (sentinel : Char) (neighbourhood expr : Text) : Bool :=
  !neighbourhood.contains '$' && !neighbourhood.contains sentinel && !isLetter expr &&
    (hasMathSign expr || readsAsFormula expr)

/-- The expression at the front of a text, found without the white space at its end if it is to
be wrapped, and kept if not. -/
def recogniser (candidate : Text → Option Nat) (sentinel : Char) : Recogniser := fun before s =>
  if before.all isBlank then
    (candidate s).map fun n =>
      let expr := s.take n
      let neighbourhood := before.toList ++ expr ++ (s.drop n).take 1
      let body := Text.trimEnd expr
      if qualifies sentinel neighbourhood (Text.trim expr) then
        .found body :: Piece.keep (expr.drop body.length)
      else Piece.keep expr
  else none

/-- A candidate that is never empty gives an honest recogniser. -/
theorem honest_recogniser {candidate : Text → Option Nat}
    (h : ∀ s n, candidate s = some n → s.take n ≠ []) (sentinel : Char) :
    (recogniser candidate sentinel).Honest := by
  intro before s ps hps
  unfold recogniser at hps
  split at hps
  · obtain ⟨n, hn, rfl⟩ := Option.map_eq_some_iff.1 hps
    have key : ∀ ps, Piece.sources ps = s.take n → Piece.sources ps ≠ [] ∧ Piece.sources ps <+: s :=
      fun ps hps => hps ▸ ⟨h s n hn, List.take_prefix n s⟩
    dsimp only
    split
    · apply key
      rw [Piece.sources_cons, Piece.sources_keep]
      exact (List.prefix_iff_eq_append.1 (Text.trimEnd_prefix _))
    · exact key _ (Piece.sources_keep _)
  · simp at hps

/-- The pieces of a text with the candidates of one kind found that are to be wrapped. -/
def pieces (candidate : Text → Option Nat) (sentinel : Char) (s : Text) : List Piece :=
  Text.cut (recogniser candidate sentinel) s

/-- Wraps the candidates of one kind. -/
def wrapAll (candidate : Text → Option Nat) (sentinel : Char) (s : Text) : Text :=
  Piece.mapFound (fun t => '$' :: t ++ ['$']) (pieces candidate sentinel s)

/-- The kinds of candidates in the order in which they are wrapped. -/
def candidates : List (Text → Option Nat) := [equation?, fraction?, function?, formula?]

theorem take_ne_nil_of_candidate {candidate : Text → Option Nat} (h : candidate ∈ candidates)
    {s : Text} {n : Nat} (hn : candidate s = some n) : s.take n ≠ [] := by
  simp only [candidates, List.mem_cons, List.not_mem_nil, or_false] at h
  rcases h with rfl | rfl | rfl | rfl
  · exact take_ne_nil_of_equation? hn
  · exact take_ne_nil_of_fraction? hn
  · exact take_ne_nil_of_function? hn
  · exact take_ne_nil_of_formula? hn

theorem sources_pieces {candidate : Text → Option Nat} (h : candidate ∈ candidates)
    (sentinel : Char) (s : Text) : Piece.sources (pieces candidate sentinel s) = s :=
  Text.source_cut (honest_recogniser (fun _ _ => take_ne_nil_of_candidate h) sentinel) s

end Wrap

/-- Wraps bare equations, fractions, functions and formulas in dollars. -/
def wrapBareMath (sentinel : Char) (s : Text) : Text :=
  Wrap.candidates.foldl (fun s candidate => Wrap.wrapAll candidate sentinel s) s

end MarkdownPrep
