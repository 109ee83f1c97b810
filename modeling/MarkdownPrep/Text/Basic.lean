/-!
# Text

Text is a list of characters. Positions that are reported to the outside are UTF-8 byte offsets
(`Text.utf8Size`, `Text.atByte?`); inside the library a place in a text is the character before
it together with the text from it on.

Letter case is ASCII case throughout: `Text.lower` leaves every other character alone.
-/

namespace MarkdownPrep

/-- A text, character by character. -/
abbrev Text := List Char

namespace Text

/-- The number of bytes of a text in UTF-8. -/
def utf8Size (s : Text) : Nat := s.foldr (fun c n => c.utf8Size + n) 0

@[simp] theorem utf8Size_nil : utf8Size [] = 0 := rfl

@[simp] theorem utf8Size_cons (c : Char) (s : Text) :
    utf8Size (c :: s) = c.utf8Size + utf8Size s := rfl

@[simp] theorem utf8Size_append (s t : Text) : utf8Size (s ++ t) = utf8Size s + utf8Size t := by
  induction s with
  | nil => simp
  | cons c s ih => rw [List.cons_append, utf8Size_cons, utf8Size_cons, ih, Nat.add_assoc]

/-- The place `offset` bytes into a text: the character before it (`before` at the start) and
the text from it on. There is none inside a character or past the end. -/
def atByteFrom (before : Option Char) (offset : Nat) : Text → Option (Option Char × Text)
  | [] => if offset = 0 then some (before, []) else none
  | c :: s =>
    if offset = 0 then some (before, c :: s)
    else if c.utf8Size ≤ offset then atByteFrom (some c) (offset - c.utf8Size) s
    else none

/-- The place `offset` bytes into a text. -/
def atByte? (offset : Nat) (s : Text) : Option (Option Char × Text) := atByteFrom none offset s

/-- The text with its ASCII capitals made small. -/
def lower (s : Text) : Text := s.map Char.toLower

/-- The text with its ASCII small letters made capital. -/
def upper (s : Text) : Text := s.map Char.toUpper

/-- Equality up to ASCII case. -/
def eqIgnoringCase (s t : Text) : Bool := lower s == lower t

/-- What follows `word` at the front of a text, ASCII case aside. -/
def dropPrefixIgnoringCase? (word s : Text) : Option Text :=
  if eqIgnoringCase (s.take word.length) word then some (s.drop word.length) else none

theorem suffix_of_dropPrefixIgnoringCase? {word s t : Text}
    (h : dropPrefixIgnoringCase? word s = some t) : t <:+ s := by
  unfold dropPrefixIgnoringCase? at h
  split at h
  · cases h; exact List.drop_suffix _ _
  · simp at h

/-- The text with one leading `c` dropped, if it has one. -/
def dropOne (c : Char) : Text → Text
  | [] => []
  | d :: s => if d = c then s else d :: s

theorem dropOne_suffix (c : Char) (s : Text) : dropOne c s <:+ s := by
  cases s with
  | nil => exact List.suffix_refl _
  | cons d s =>
    simp only [dropOne]
    split
    · exact List.suffix_cons d s
    · exact List.suffix_refl _

/-- The text with one trailing `c` dropped, if it has one. -/
def dropOneEnd (c : Char) (s : Text) : Text := if s.getLast? = some c then s.dropLast else s

/-- The text without its first and its last `n` characters. -/
def inner (n : Nat) (s : Text) : Text := (s.take (s.length - n)).drop n

/-- The text before the first `stop`, if there is one. -/
def upTo (stop : Text) : Text → Option Text
  | [] => none
  | c :: s => if stop.isPrefixOf (c :: s) then some [] else (upTo stop s).map (c :: ·)

theorem append_prefix_of_upTo {stop s t : Text} (h : upTo stop s = some t) :
    t ++ stop <+: s := by
  induction s generalizing t with
  | nil => simp [upTo] at h
  | cons c s ih =>
    simp only [upTo] at h
    split at h
    · next hp => cases h; exact List.isPrefixOf_iff_prefix.1 hp
    · obtain ⟨u, hu, rfl⟩ := Option.map_eq_some_iff.1 h
      exact (List.prefix_cons_inj c).2 (ih hu)

/-- A text that has more than what stands before `c` goes on with `c` there. -/
theorem takeWhile_ne_append_prefix {c : Char} {s : Text}
    (h : s.length ≠ (s.takeWhile (· ≠ c)).length) : s.takeWhile (· ≠ c) ++ [c] <+: s := by
  induction s with
  | nil => simp at h
  | cons d s ih =>
    by_cases hd : d = c
    · subst hd; simp
    · simp only [List.takeWhile_cons, ne_eq, hd, not_false_eq_true, decide_true, if_true] at h ⊢
      exact (List.prefix_cons_inj d).2 (ih (by simpa using h))

/-- The pieces of a text between the places where `sep` stands; always at least one. -/
def splitOn (sep : Char) : Text → List Text
  | [] => [[]]
  | c :: s =>
    if c = sep then [] :: splitOn sep s
    else match splitOn sep s with
      | [] => [[c]]
      | t :: ts => (c :: t) :: ts

/-- The text before and the text after the first `sep`. -/
def splitOnce? (sep : Char) : Text → Option (Text × Text)
  | [] => none
  | c :: s =>
    if c = sep then some ([], s) else (splitOnce? sep s).map fun (t, u) => (c :: t, u)

/-- The texts of a list with `sep` between neighbours. -/
def join (sep : Text) (ts : List Text) : Text := (ts.intersperse sep).flatten

/-- True when `p` holds at some place of a text, given the character before the place and the
text from it on; the place after the last character is not asked. -/
def anyPlace (p : Option Char → Text → Bool) (before : Option Char) : Text → Bool
  | [] => false
  | c :: s => p before (c :: s) || anyPlace p (some c) s

/-- True when `part` occurs in a text as a stretch of neighbouring characters. -/
def hasPart (part s : Text) : Bool := part.isEmpty || anyPlace (fun _ t => part.isPrefixOf t) none s

end Text

end MarkdownPrep
