import MarkdownPrep.Proofs.Wrap.Place
import MarkdownPrep.Text.Lines

/-!
# The ends of lines and of a text

Unified line ends have no carriage return, and a text without one is unified. Trimming takes white
space off the end of a text and nothing else, so it does not matter what white space is put there.
-/

namespace MarkdownPrep

namespace Text

theorem not_mem_unifyLineEnds (s : Text) : '\r' ∉ unifyLineEnds s := by
  fun_induction unifyLineEnds s with
  | case1 => simp
  | case2 s ih => simpa using ih
  | case3 c s _ ih =>
    rw [List.mem_cons, not_or]
    refine ⟨?_, ih⟩
    split
    · decide
    · next hc => exact Ne.symm hc

theorem unifyLineEnds_eq_self {s : Text} (h : '\r' ∉ s) : unifyLineEnds s = s := by
  induction s with
  | nil => rfl
  | cons c s ih =>
    rw [List.mem_cons, not_or] at h
    rw [unifyLineEnds, if_neg (Ne.symm h.1), ih h.2]
    intro s' hc
    exact absurd hc.symm h.1

/-- A text is what is left of it when it is trimmed, and white space. -/
theorem exists_trimEnd_append (s : Text) : ∃ t, s = trimEnd s ++ t ∧ ∀ c ∈ t, isBlank c :=
  ⟨s.drop (trimEnd s).length, (List.prefix_iff_eq_append.1 (Text.trimEnd_prefix s)).symm,
    isBlank_of_mem_drop_trimEnd⟩

theorem trimEnd_eq_nil {s : Text} (h : ∀ c ∈ s, isBlank c) : trimEnd s = [] := by
  induction s with
  | nil => rfl
  | cons c s ih =>
    rw [List.forall_mem_cons] at h
    rw [trimEnd, ih h.2, if_pos h.1]

theorem trimEnd_append_of_blank (s : Text) {t : Text} (h : ∀ c ∈ t, isBlank c) :
    trimEnd (s ++ t) = trimEnd s := by
  induction s with
  | nil => exact trimEnd_eq_nil h
  | cons c s ih => rw [List.cons_append, trimEnd, trimEnd, ih]

theorem trimEnd_trimEnd (s : Text) : trimEnd (trimEnd s) = trimEnd s := by
  obtain ⟨t, hs, ht⟩ := exists_trimEnd_append s
  rw [← trimEnd_append_of_blank (trimEnd s) ht, ← hs]

/-- A text with a character that is not white space. -/
def Visible (s : Text) : Prop := ∃ c ∈ s, ¬ isBlank c

instance (s : Text) : Decidable (Visible s) :=
  decidable_of_iff (s.any (!isBlank ·)) (by simp [Visible])

theorem not_visible_nil : ¬ Visible [] := by simp [Visible]

theorem trimEnd_append_of_visible (s : Text) {t : Text} (h : Visible t) :
    trimEnd (s ++ t) = s ++ trimEnd t := by
  have hne : trimEnd t ≠ [] := by
    intro hnil
    obtain ⟨u, hu, hblank⟩ := exists_trimEnd_append t
    rw [hnil, List.nil_append] at hu
    obtain ⟨c, hc, hvisible⟩ := h
    exact hvisible (hblank c (hu ▸ hc))
  induction s with
  | nil => rfl
  | cons c s ih =>
    rw [List.cons_append, trimEnd, ih]
    split
    · next hnil => exact absurd (List.append_eq_nil_iff.1 hnil).2 hne
    · rfl

end Text

end MarkdownPrep
