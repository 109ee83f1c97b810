import Mathlib.Logic.Basic
import MarkdownPrep.Json.Reader

/-!
# The steps of the reader

`Steps r c r'` has one case for each thing that a character can do to the reader. Every step is one
of these (`steps_of_step`), so what the steps keep is shown case by case, without the definition of
`Reader.step`.
-/

namespace MarkdownPrep.Json

/-- True for the modes in which blanks are passed over. -/
def Mode.isBetween : Mode → Bool
  | .value _ | .key _ | .colon _ | .separator | .done _ => true
  | _ => false

namespace Reader

/-- The words for values, each as its first letter, the letters after that and the value. -/
def words : List (Char × Text × Tree) :=
  [('n', "ull".toList, .null), ('t', "rue".toList, .bool true), ('f', "alse".toList, .bool false)]

theorem isAlpha_of_mem_words {c : Char} {rest : Text} {t : Tree} (h : (c, rest, t) ∈ words) :
    c.isAlpha ∧ rest.all Char.isAlpha := by
  simp only [words, List.mem_cons, Prod.mk.injEq, List.not_mem_nil, or_false] at h
  rcases h with ⟨rfl, rfl, -⟩ | ⟨rfl, rfl, -⟩ | ⟨rfl, rfl, -⟩ <;> decide

/-- The reader goes from the state `r` to the state `r'` with the character `c`. -/
inductive Steps : Reader → Char → Reader → Prop
  | space {m : Mode} {frames : List Frame} {c : Char} (hm : m.isBetween) (hc : isSpace c) :
      Steps ⟨m, frames⟩ c ⟨m, frames⟩
  -- the first character of a value
  | openArray {first : Bool} {frames : List Frame} :
      Steps ⟨.value first, frames⟩ '[' ⟨.value true, .items [] :: frames⟩
  | openObject {first : Bool} {frames : List Frame} :
      Steps ⟨.value first, frames⟩ '\x7b' ⟨.key true, .members [] :: frames⟩
  | openString {first : Bool} {frames : List Frame} :
      Steps ⟨.value first, frames⟩ '"' ⟨.string false [], frames⟩
  | openWord {first : Bool} {frames : List Frame} {c : Char} {rest : Text} {t : Tree}
      (hword : (c, rest, t) ∈ words) : Steps ⟨.value first, frames⟩ c ⟨.word rest t, frames⟩
  | openNumber {first : Bool} {frames : List Frame} {c : Char} {part : NumberPart} {l : Literal}
      (hc : c = '-' ∨ c.isDigit) : Steps ⟨.value first, frames⟩ c ⟨.number part l, frames⟩
  -- the parts of an array
  | nextItem {before : List Tree} {frames : List Frame} :
      Steps ⟨.separator, .items before :: frames⟩ ',' ⟨.value false, .items before :: frames⟩
  | closeArray {m : Mode} {before items : List Tree} {frames : List Frame}
      (hm : m = .value true ∨ m = .separator) :
      Steps ⟨m, .items before :: frames⟩ ']' (complete (.array items) frames)
  -- the parts of an object
  | openKey {first : Bool} {frames : List Frame} :
      Steps ⟨.key first, frames⟩ '"' ⟨.string true [], frames⟩
  | endKey {key : List Glyph} {before : List (List Glyph × Tree)} {frames : List Frame} :
      Steps ⟨.colon key, .members before :: frames⟩ ':' ⟨.value false, .entry before key :: frames⟩
  | nextMember {before : List (List Glyph × Tree)} {frames : List Frame} :
      Steps ⟨.separator, .members before :: frames⟩ ',' ⟨.key false, .members before :: frames⟩
  | closeObject {m : Mode} {before members : List (List Glyph × Tree)} {frames : List Frame}
      (hm : m = .key true ∨ m = .separator) :
      Steps ⟨m, .members before :: frames⟩ '\x7d' (complete (.object members) frames)
  -- the characters of a string
  | closeString {isKey : Bool} {gs : List Glyph} {frames : List Frame} :
      Steps ⟨.string isKey gs, frames⟩ '"' (finishString isKey gs frames)
  | escape {isKey : Bool} {gs : List Glyph} {frames : List Frame} :
      Steps ⟨.string isKey gs, frames⟩ '\\' ⟨.escape isKey gs, frames⟩
  | glyph {isKey : Bool} {gs : List Glyph} {frames : List Frame} {c : Char} (hquote : c ≠ '"')
      (hslash : c ≠ '\\') :
      Steps ⟨.string isKey gs, frames⟩ c ⟨.string isKey (.char c :: gs), frames⟩
  | escapeCode {isKey : Bool} {gs : List Glyph} {frames : List Frame} :
      Steps ⟨.escape isKey gs, frames⟩ 'u' ⟨.hex isKey gs 4 0, frames⟩
  | escaped {isKey : Bool} {gs : List Glyph} {frames : List Frame} {c d : Char}
      (hd : shortEscape? c = some d) :
      Steps ⟨.escape isKey gs, frames⟩ c ⟨.string isKey (.char d :: gs), frames⟩
  | digit {isKey : Bool} {gs : List Glyph} {due code d : Nat} {frames : List Frame} {c : Char}
      (hd : hexDigit? c = some d) :
      Steps ⟨.hex isKey gs due code, frames⟩ c ⟨.hex isKey gs (due - 1) (code * 16 + d), frames⟩
  | lastDigit {isKey : Bool} {gs : List Glyph} {due code d : Nat} {frames : List Frame} {c : Char}
      (hd : hexDigit? c = some d) :
      Steps ⟨.hex isKey gs due code, frames⟩ c
        ⟨.string isKey (.unit (code * 16 + d) :: gs), frames⟩
  -- the characters of a word or a number
  | letter {c : Char} {rest : Text} {t : Tree} {frames : List Frame} :
      Steps ⟨.word (c :: rest) t, frames⟩ c ⟨.word rest t, frames⟩
  | lastLetter {c : Char} {t : Tree} {frames : List Frame} :
      Steps ⟨.word [c] t, frames⟩ c (complete t frames)
  | figure {part part' : NumberPart} {l l' : Literal} {frames : List Frame} {c : Char}
      (hl : stepNumber part l c = some (part', l')) :
      Steps ⟨.number part l, frames⟩ c ⟨.number part' l', frames⟩
  -- a number ends before the character, which is read after the finished value
  | afterNumber {part : NumberPart} {l : Literal} {frames : List Frame} {c : Char} {r : Reader}
      (hend : mayEnd part) (hstep : Steps (complete (.number l) frames) c r) :
      Steps ⟨.number part l, frames⟩ c r

variable {r r' : Reader} {frames : List Frame} {c : Char}

theorem steps_of_stepSeparator (hm : r.mode.isBetween) (h : stepSeparator r c = some r') :
    Steps r c r' := by
  obtain ⟨mode, frames⟩ := r
  unfold stepSeparator at h
  rcases ite_eq_iff.1 h with ⟨hc, ⟨⟩⟩ | ⟨-, h⟩
  · exact .space hm hc
  split at h
  · next hmode hframes =>
    obtain rfl : mode = .separator := hmode
    obtain rfl : frames = _ := hframes
    rcases ite_eq_iff.1 h with ⟨rfl, ⟨⟩⟩ | ⟨-, h⟩
    · exact .nextItem
    rcases ite_eq_iff.1 h with ⟨rfl, ⟨⟩⟩ | ⟨-, ⟨⟩⟩
    exact .closeArray (.inr rfl)
  · next hmode hframes =>
    obtain rfl : mode = .separator := hmode
    obtain rfl : frames = _ := hframes
    rcases ite_eq_iff.1 h with ⟨rfl, ⟨⟩⟩ | ⟨-, h⟩
    · exact .nextMember
    rcases ite_eq_iff.1 h with ⟨rfl, ⟨⟩⟩ | ⟨-, ⟨⟩⟩
    exact .closeObject (.inr rfl)
  · cases h

theorem steps_of_stepValue {first : Bool} (h : stepValue first frames c = some r') :
    Steps ⟨.value first, frames⟩ c r' := by
  unfold stepValue at h
  rcases ite_eq_iff.1 h with ⟨hc, ⟨⟩⟩ | ⟨-, h⟩
  · exact .space rfl hc
  rcases ite_eq_iff.1 h with ⟨rfl, ⟨⟩⟩ | ⟨-, h⟩
  · exact .openArray
  rcases ite_eq_iff.1 h with ⟨rfl, ⟨⟩⟩ | ⟨-, h⟩
  · exact .openObject
  rcases ite_eq_iff.1 h with ⟨rfl, ⟨⟩⟩ | ⟨-, h⟩
  · exact .openString
  rcases ite_eq_iff.1 h with ⟨rfl, ⟨⟩⟩ | ⟨-, h⟩
  · exact .openWord (by simp [words])
  rcases ite_eq_iff.1 h with ⟨rfl, ⟨⟩⟩ | ⟨-, h⟩
  · exact .openWord (by simp [words])
  rcases ite_eq_iff.1 h with ⟨rfl, ⟨⟩⟩ | ⟨-, h⟩
  · exact .openWord (by simp [words])
  rcases ite_eq_iff.1 h with ⟨rfl, ⟨⟩⟩ | ⟨-, h⟩
  · exact .openNumber (.inl rfl)
  rcases ite_eq_iff.1 h with ⟨rfl, ⟨⟩⟩ | ⟨-, h⟩
  · exact .openNumber (.inr rfl)
  rcases ite_eq_iff.1 h with ⟨hc, ⟨⟩⟩ | ⟨-, h⟩
  · exact .openNumber (.inr hc)
  rcases ite_eq_iff.1 h with ⟨hc, h⟩ | ⟨-, ⟨⟩⟩
  split at h
  · cases h
    obtain ⟨hbracket, hfirst⟩ := Bool.and_eq_true_iff.1 hc
    obtain rfl : c = ']' := of_decide_eq_true hbracket
    exact .closeArray (.inl (congrArg Mode.value hfirst))
  · cases h

theorem isBetween_complete (t : Tree) (frames : List Frame) :
    (complete t frames).mode.isBetween := by
  cases frames with
  | nil => rfl
  | cons f frames => cases f <;> rfl

/-- **Every step is one of those listed.** -/
theorem steps_of_step (h : step r c = some r') : Steps r c r' := by
  obtain ⟨mode, frames⟩ := r
  cases mode with
  | value first => exact steps_of_stepValue h
  | key first =>
    rcases ite_eq_iff.1 h with ⟨hc, ⟨⟩⟩ | ⟨-, h⟩
    · exact .space rfl hc
    rcases ite_eq_iff.1 h with ⟨rfl, ⟨⟩⟩ | ⟨-, h⟩
    · exact .openKey
    rcases ite_eq_iff.1 h with ⟨hc, h⟩ | ⟨-, ⟨⟩⟩
    split at h
    · next hframes =>
      cases h
      obtain rfl : frames = _ := hframes
      obtain ⟨hbrace, hfirst⟩ := Bool.and_eq_true_iff.1 hc
      obtain rfl : c = '\x7d' := of_decide_eq_true hbrace
      exact .closeObject (.inl (congrArg Mode.key hfirst))
    · cases h
  | colon key =>
    rcases ite_eq_iff.1 h with ⟨hc, ⟨⟩⟩ | ⟨-, h⟩
    · exact .space rfl hc
    rcases ite_eq_iff.1 h with ⟨rfl, h⟩ | ⟨-, ⟨⟩⟩
    -- a colon is due in an object only
    rcases frames with _ | ⟨items | members | entry, frames⟩ <;> cases h
    exact .endKey
  | string isKey gs =>
    rcases ite_eq_iff.1 h with ⟨rfl, ⟨⟩⟩ | ⟨hquote, h⟩
    · exact .closeString
    rcases ite_eq_iff.1 h with ⟨rfl, ⟨⟩⟩ | ⟨hslash, h⟩
    · exact .escape
    rcases ite_eq_iff.1 h with ⟨-, ⟨⟩⟩ | ⟨-, ⟨⟩⟩
    exact .glyph hquote hslash
  | escape isKey gs =>
    rcases ite_eq_iff.1 h with ⟨rfl, ⟨⟩⟩ | ⟨-, h⟩
    · exact .escapeCode
    obtain ⟨d, hd, rfl⟩ := Option.map_eq_some_iff.1 h
    exact .escaped hd
  | hex isKey gs due code =>
    obtain ⟨d, hd, rfl⟩ := Option.map_eq_some_iff.1 h
    split
    · exact .lastDigit hd
    · exact .digit hd
  | word rest t =>
    rcases rest with _ | ⟨d, _ | ⟨e, rest⟩⟩
    · cases h
    · rcases ite_eq_iff.1 h with ⟨rfl, ⟨⟩⟩ | ⟨-, ⟨⟩⟩
      exact .lastLetter
    · rcases ite_eq_iff.1 h with ⟨rfl, ⟨⟩⟩ | ⟨-, ⟨⟩⟩
      exact .letter
  | number part l =>
    simp only [step] at h
    split at h
    · next hl =>
      cases h
      exact .figure hl
    · rcases ite_eq_iff.1 h with ⟨hend, h⟩ | ⟨-, ⟨⟩⟩
      exact .afterNumber hend (steps_of_stepSeparator (isBetween_complete _ _) h)
  | separator => exact steps_of_stepSeparator rfl h
  | done t => exact steps_of_stepSeparator rfl h

end Reader

end MarkdownPrep.Json
