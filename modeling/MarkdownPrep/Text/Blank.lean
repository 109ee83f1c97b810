import MarkdownPrep.Text.Basic

/-!
# White space

`isBlank` is the Unicode property White_Space. Trimming and words go by it.
-/

namespace MarkdownPrep

/-- True when a character's code lies in one of the ranges, both ends included. -/
def inRanges (ranges : List (Nat × Nat)) (c : Char) : Bool :=
  ranges.any fun (lo, hi) => lo ≤ c.toNat && c.toNat ≤ hi

/-- The codes of the white space characters. -/
def blankRanges : List (Nat × Nat) :=
  [(0x9, 0xD), (0x20, 0x20), (0x85, 0x85), (0xA0, 0xA0), (0x1680, 0x1680), (0x2000, 0x200A),
  (0x2028, 0x2029), (0x202F, 0x202F), (0x205F, 0x205F), (0x3000, 0x3000)]

/-- White space: the property White_Space. -/
def isBlank (c : Char) : Bool := inRanges blankRanges c

namespace Text

/-- The text without the white space at its front. -/
def trimStart (s : Text) : Text := s.dropWhile isBlank

/-- The text without the white space at its end. -/
def trimEnd : Text → Text
  | [] => []
  | c :: s =>
    match trimEnd s with
    | [] => if isBlank c then [] else [c]
    | t => c :: t

theorem trimEnd_prefix (s : Text) : trimEnd s <+: s := by
  induction s with
  | nil => exact List.prefix_refl _
  | cons c s ih =>
    unfold trimEnd
    split
    · split
      · exact List.nil_prefix
      · exact (List.prefix_cons_inj c).2 List.nil_prefix
    · next t ht => exact (List.prefix_cons_inj c).2 ih

/-- The text without the white space at either end. -/
def trim (s : Text) : Text := trimEnd (trimStart s)

/-- The first word of a text: its first run of characters that are not white space. -/
def firstWord? (s : Text) : Option Text :=
  match (trimStart s).takeWhile (!isBlank ·) with
  | [] => none
  | w => some w

end Text

end MarkdownPrep
