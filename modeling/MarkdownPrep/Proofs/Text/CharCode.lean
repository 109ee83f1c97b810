import MarkdownPrep.Text.Basic

/-!
# ASCII letters and digits by their codes

The classes of letters and digits are ranges of codes, so whether a character can be in one of them
and in some other class is a matter of comparing numbers.
-/

namespace MarkdownPrep

variable {c : Char}

theorem isUpper_iff : c.isUpper ↔ 65 ≤ c.toNat ∧ c.toNat ≤ 90 :=
  decide_eq_true_iff.trans (and_congr UInt32.le_iff_toNat_le UInt32.le_iff_toNat_le)

theorem isLower_iff : c.isLower ↔ 97 ≤ c.toNat ∧ c.toNat ≤ 122 :=
  Bool.and_eq_true_iff.trans (and_congr (decide_eq_true_iff.trans UInt32.le_iff_toNat_le)
    (decide_eq_true_iff.trans UInt32.le_iff_toNat_le))

theorem isAlpha_iff : c.isAlpha ↔
    (65 ≤ c.toNat ∧ c.toNat ≤ 90) ∨ (97 ≤ c.toNat ∧ c.toNat ≤ 122) := by
  rw [← isUpper_iff, ← isLower_iff, ← Bool.or_eq_true]
  rfl

theorem isDigit_iff : c.isDigit ↔ 48 ≤ c.toNat ∧ c.toNat ≤ 57 := Char.isDigit_iff_toNat

theorem isAlphanum_iff : c.isAlphanum ↔ (65 ≤ c.toNat ∧ c.toNat ≤ 90) ∨
    (97 ≤ c.toNat ∧ c.toNat ≤ 122) ∨ (48 ≤ c.toNat ∧ c.toNat ≤ 57) := by
  rw [← isUpper_iff, ← isLower_iff, ← isDigit_iff, ← or_assoc, ← Bool.or_eq_true, ← Bool.or_eq_true]
  rfl

/-! ## Small letters -/

theorem toLower_of_not_isUpper (h : ¬ c.isUpper) : c.toLower = c :=
  dif_neg fun hc => h (decide_eq_true hc)

theorem toNat_toLower (h : c.isUpper) : c.toLower.toNat = c.toNat + 32 := by
  have hlow : c.toLower.val = c.val + 32 :=
    congrArg Char.val (dif_pos (of_decide_eq_true h))
  have := isUpper_iff.1 h
  have hadd := UInt32.toNat_add c.val 32
  rw [← hlow] at hadd
  change c.toLower.toNat = (c.toNat + 32) % 2 ^ 32 at hadd
  omega

theorem toLower_toLower (c : Char) : c.toLower.toLower = c.toLower := by
  refine toLower_of_not_isUpper fun h => ?_
  by_cases hc : c.isUpper
  · have hcode := toNat_toLower hc
    rw [isUpper_iff] at h hc
    omega
  · rw [toLower_of_not_isUpper hc] at h
    exact hc h

/-- The characters that become the small letter `d`: it and its capital. -/
theorem toLower_eq_iff {d : Char} (capital : Char) (hd : d.isLower)
    (h : capital.toNat + 32 = d.toNat) : c.toLower = d ↔ c = d ∨ c = capital := by
  have hd := isLower_iff.1 hd
  simp only [← Char.toNat_inj]
  by_cases hc : c.isUpper
  · have := isUpper_iff.1 hc
    have := toNat_toLower hc
    omega
  · rw [toLower_of_not_isUpper hc]
    rw [isUpper_iff] at hc
    omega

end MarkdownPrep
