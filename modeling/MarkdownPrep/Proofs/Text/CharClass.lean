import MarkdownPrep.Proofs.Text.CharCode
import MarkdownPrep.Proofs.Text.PrivateUse
import MarkdownPrep.Text.WordChar

/-!
# Private use characters have no class

A private use character is no letter, no digit, no white space and no part of a word. For the
classes that are tables of ranges this is a check of the ranges (`not_inRanges_of_isPrivateUse`).
So a reader of such classes does not go into a text that begins with one (`Text.Stops`).
-/

namespace MarkdownPrep

/-- Ranges that no private use character lies in. -/
def Unprivate (ranges : List (Nat × Nat)) : Bool :=
  ranges.all fun r => privateUseRanges.all fun p => r.2 < p.1 || p.2 < r.1

variable {c : Char}

theorem not_inRanges_of_isPrivateUse {ranges : List (Nat × Nat)} (h : Unprivate ranges)
    (hc : isPrivateUse c) : inRanges ranges c = false := by
  refine List.any_eq_false.2 fun r hr hin => ?_
  obtain ⟨p, hp, hle⟩ := List.any_eq_true.1 hc
  have hapart := List.all_eq_true.1 (List.all_eq_true.1 h r hr) p hp
  simp only [Bool.and_eq_true, Bool.or_eq_true, decide_eq_true_eq] at hin hle hapart
  omega

theorem not_isBlank_of_isPrivateUse (hc : isPrivateUse c) : isBlank c = false :=
  not_inRanges_of_isPrivateUse (by decide) hc

theorem not_isAlphanum_of_isPrivateUse (hc : isPrivateUse c) : c.isAlphanum = false := by
  refine Bool.eq_false_iff.2 fun h => ?_
  have hc := isPrivateUse_iff.1 hc
  rw [isAlphanum_iff] at h
  omega

theorem not_isDigit_of_isPrivateUse (hc : isPrivateUse c) : c.isDigit = false := by
  have h := not_isAlphanum_of_isPrivateUse hc
  rw [Char.isAlphanum, Bool.or_eq_false_iff] at h
  exact h.2

theorem not_isAlpha_of_isPrivateUse (hc : isPrivateUse c) : c.isAlpha = false := by
  have h := not_isAlphanum_of_isPrivateUse hc
  rw [Char.isAlphanum, Bool.or_eq_false_iff] at h
  exact h.1

theorem not_isUpper_of_isPrivateUse (hc : isPrivateUse c) : c.isUpper = false := by
  have h := not_isAlpha_of_isPrivateUse hc
  exact (Bool.or_eq_false_iff.1 h).1

theorem toLower_of_isPrivateUse (hc : isPrivateUse c) : c.toLower = c := by
  refine toLower_of_not_isUpper ?_
  rw [not_isUpper_of_isPrivateUse hc]
  decide

theorem not_isLower_of_isPrivateUse (hc : isPrivateUse c) : c.isLower = false := by
  have h := not_isAlpha_of_isPrivateUse hc
  exact (Bool.or_eq_false_iff.1 h).2

theorem not_isDecimalDigit_of_isPrivateUse (hc : isPrivateUse c) : isDecimalDigit c = false := by
  have hzeros : Unprivate (decimalZeros.map fun z => (z, z + 9)) := by decide
  have h := not_inRanges_of_isPrivateUse hzeros hc
  rw [inRanges, List.any_map, List.any_eq_false] at h
  rw [isDecimalDigit, not_isDigit_of_isPrivateUse hc, Bool.false_or, List.any_eq_false]
  intro z hz hin
  refine h z hz ?_
  simp only [Bool.and_eq_true, decide_eq_true_eq, Function.comp_apply] at hin ⊢
  omega

theorem not_isAlphabetic_of_isPrivateUse (hc : isPrivateUse c) : isAlphabetic c = false := by
  rw [isAlphabetic, not_isAlpha_of_isPrivateUse hc,
    not_inRanges_of_isPrivateUse (by decide +kernel) hc, Bool.and_false, Bool.or_false]

theorem not_isNameChar_of_isPrivateUse (hc : isPrivateUse c) : isNameChar c = false := by
  have hbar : c ≠ '_' := by
    rintro rfl
    exact absurd hc (by decide)
  rw [isNameChar, isAlphanumeric, not_isAlphabetic_of_isPrivateUse hc,
    not_isDecimalDigit_of_isPrivateUse hc, not_inRanges_of_isPrivateUse (by decide +kernel) hc,
    not_inRanges_of_isPrivateUse (by decide +kernel) hc]
  simpa using hbar

theorem not_isWordChar_of_isPrivateUse (hc : isPrivateUse c) : isWordChar c = false := by
  rw [isWordChar, not_isAlphabetic_of_isPrivateUse hc, not_isDecimalDigit_of_isPrivateUse hc,
    not_inRanges_of_isPrivateUse (by decide +kernel) hc,
    not_inRanges_of_isPrivateUse (by decide +kernel) hc,
    not_inRanges_of_isPrivateUse (by decide +kernel) hc]
  rfl

/-! ## Readers stop at them -/

namespace Text

/-- A text that no reader goes into: at its front is a private use character, or nothing. -/
def Stops (z : Text) : Prop := ∀ c, z.head? = some c → isPrivateUse c

section
variable {z : Text} (hz : Stops z)
include hz

/-- What a private use character is not, the text does not go on with. -/
theorem Stops.ne_cons {c : Char} (hc : isPrivateUse c = false) (s : Text) : z ≠ c :: s := by
  rintro rfl
  exact absurd (hz c rfl) (by rw [hc]; decide)

omit hz in
theorem Stops.head_ne {b c : Char} (h : Stops (c :: z)) (hb : isPrivateUse b = false) : c ≠ b :=
  fun he => h.ne_cons hb z (by rw [he])

theorem Stops.any_head? {p : Char → Bool} (hp : ∀ c, isPrivateUse c → p c = false) (s : Text) :
    (s ++ z).head?.any p = s.head?.any p := by
  cases s with
  | cons c s => rfl
  | nil =>
    cases z with
    | nil => rfl
    | cons c z => exact hp c (hz c rfl)

theorem Stops.takeWhile {p : Char → Bool} (hp : ∀ c, isPrivateUse c → p c = false) (s : Text) :
    (s ++ z).takeWhile p = s.takeWhile p := by
  induction s with
  | nil =>
    cases z with
    | nil => rfl
    | cons c z => exact List.takeWhile_cons_of_neg (by simp [hp c (hz c rfl)])
  | cons c s ih => rw [List.cons_append, List.takeWhile_cons, List.takeWhile_cons, ih]

theorem Stops.dropWhile {p : Char → Bool} (hp : ∀ c, isPrivateUse c → p c = false) (s : Text) :
    (s ++ z).dropWhile p = s.dropWhile p ++ z := by
  induction s with
  | nil =>
    cases z with
    | nil => rfl
    | cons c z => exact List.dropWhile_cons_of_neg (by simp [hp c (hz c rfl)])
  | cons c s ih =>
    rw [List.cons_append, List.dropWhile_cons, List.dropWhile_cons, ih]
    split <;> rfl

theorem Stops.dropOne {c : Char} (hc : isPrivateUse c = false) (s : Text) :
    Text.dropOne c (s ++ z) = Text.dropOne c s ++ z := by
  cases s with
  | nil =>
    cases z with
    | nil => rfl
    | cons d z =>
      show (if d = c then z else d :: z) = d :: z
      rw [if_neg (hz.head_ne hc)]
  | cons d s =>
    rw [List.cons_append, Text.dropOne, Text.dropOne]
    split <;> rfl

theorem Stops.startsWithName (s : Text) :
    Text.startsWithName (s ++ z) = Text.startsWithName s := by
  cases s with
  | cons c s => rfl
  | nil =>
    cases z with
    | nil => rfl
    | cons c z => exact not_isNameChar_of_isPrivateUse (hz c rfl)

theorem Stops.startsWithWord (s : Text) :
    Text.startsWithWord (s ++ z) = Text.startsWithWord s := by
  cases s with
  | cons c s => rfl
  | nil =>
    cases z with
    | nil => rfl
    | cons c z => exact not_isWordChar_of_isPrivateUse (hz c rfl)

end

end Text

end MarkdownPrep
