import MarkdownPrep.Text.Basic

/-!
# Tokens

A token is a short text that stands for a stretch put aside: the kind of the stretch and its
number, between two copies of a sentinel character. The sentinel is taken from the private use
characters that the text does not contain, so no token occurs in it, and none of a token's
characters is one that a pass looks for.
-/

namespace MarkdownPrep.Stash

/-- What a stretch that was put aside is. -/
inductive Kind where
  | displayMath
  | fencedCode
  | inlineCode
  | inlineMath
  /-- A display block that was delimited by brackets at first. -/
  | mathBlock
  | currency
  deriving DecidableEq, Repr

namespace Kind

/-- The name of a kind in its tokens. -/
def label : Kind → Text
  | displayMath => "DISPLAY_MATH".toList
  | fencedCode => "FENCED_CODE".toList
  | inlineCode => "INLINE_CODE".toList
  | inlineMath => "INLINE_MATH".toList
  | mathBlock => "MATH_BLOCK".toList
  | currency => "CURRENCY".toList

/-- The kinds, in the order in which the passes use them. -/
def all : List Kind := [displayMath, fencedCode, inlineCode, inlineMath, mathBlock, currency]

/-- The kind with a given label. -/
def ofLabel? (label : Text) : Option Kind := all.find? fun k => k.label == label

end Kind

/-- A token without its sentinels. -/
def tokenBody (kind : Kind) (index : Nat) : Text :=
  "__".toList ++ kind.label ++ '_' :: Nat.toDigits 10 index ++ "__".toList

/-- The token of the stretch of number `index`, counted from zero. -/
def token (sentinel : Char) (kind : Kind) (index : Nat) : Text :=
  sentinel :: tokenBody kind index ++ [sentinel]

end MarkdownPrep.Stash
