import MarkdownPrep.Proofs.Amount.Read
import MarkdownPrep.Proofs.Dollar.Literal
import MarkdownPrep.Proofs.Text.CharClass
import MarkdownPrep.Proofs.Text.Ends
import MarkdownPrep.Verbatim

/-!
# What a bare amount looks like

A bare amount begins with a digit or its sign and ends with no white space, no dash and no
backslash; of white space it has one character at most (`Shape`). Unifying line ends changes that
one character and no other (`unifyLineEnds_eq_map`), so the shape stays (`Shape.unifyLineEnds`).
-/

namespace MarkdownPrep

namespace Amount

/-- The characters that the figure of a bare amount is written with, but for its sign. -/
def isCountChar (c : Char) : Bool := isDecimalDigit c || c = ',' || c = '.'

/-- The characters that a bare amount may end with. -/
def isFinal (c : Char) : Bool := isCountChar c || c.isAlpha

/-- The shape of a bare amount. -/
structure Shape (s : Text) : Prop where
  head : ∃ c, s.head? = some c ∧ (isDecimalDigit c ∨ c = '-')
  last : ∃ c, s.getLast? = some c ∧ isFinal c
  all : ∀ c ∈ s, isFinal c ∨ c = '-' ∨ isBlank c
  blanks : s.countP isBlank ≤ 1

variable {s t : Text} {c : Char}

theorem not_isBlank_of_isFinal (h : isFinal c) : ¬ isBlank c := by
  simp only [isFinal, isCountChar, Bool.or_eq_true, decide_eq_true_eq] at h
  rcases h with ((h | rfl) | rfl) | h
  · simp [not_isBlank_of_isDecimalDigit h]
  · decide
  · decide
  · exact Wrap.not_isBlank_of_isAlphanum (Bool.or_eq_true_iff.2 (.inl h))

theorem isFinal_of_isAlpha (h : c.isAlpha) : isFinal c := by simp [isFinal, h]

theorem isFinal_of_mem_magnitudeLetters (h : magnitudeLetters.contains c) : isFinal c := by
  have hletters : ∀ c ∈ magnitudeLetters, isFinal c := List.all_eq_true.1 (by decide)
  exact hletters c (List.contains_iff_mem.1 h)

/-- A magnitude ends a bare amount, after one white space character at most. -/
theorem exists_of_isBareSuffix (h : isBareSuffix s) :
    ∃ gap w, s = gap ++ w ∧ (∀ c ∈ w, isFinal c) ∧ gap.length ≤ 1 ∧ (∀ c ∈ gap, isBlank c) ∧
      (gap ≠ [] → w ≠ []) := by
  unfold isBareSuffix at h
  split at h
  · exact ⟨[], [], rfl, by simp⟩
  · next c =>
    exact ⟨[], [c], rfl, by simpa using isFinal_of_mem_magnitudeLetters h, by simp⟩
  · next b c =>
    simp only [Bool.and_eq_true] at h
    exact ⟨[b], [c], rfl, by simpa using isFinal_of_mem_magnitudeLetters h.2, by simp,
      by simpa using h.1, by simp⟩
  · next c t _ _ =>
    have hwords : ∀ w ∈ magnitudeWords, w.all Char.isAlpha := by decide
    have hword := List.all_eq_true.1 (hwords _ (List.contains_iff_mem.1 h))
    rw [List.forall_mem_cons] at hword
    refine ⟨[], c :: t, rfl, List.forall_mem_cons.2 ⟨?_, fun d hd => ?_⟩, by simp⟩
    · exact isFinal_of_isAlpha (isAlpha_of_isAlpha_toLower hword.1)
    · exact isFinal_of_isAlpha (hword.2 d hd)

/-- A sign, a figure, white space of one character at most and a magnitude make a shape. -/
theorem shape_append {sign figure gap w : Text} (hsign : ∀ c ∈ sign, c = '-')
    (hhead : ∃ c, figure.head? = some c ∧ isDecimalDigit c) (hfigure : ∀ c ∈ figure, isCountChar c)
    (hw : ∀ c ∈ w, isFinal c) (hgap : gap.length ≤ 1) (hgap' : ∀ c ∈ gap, isBlank c)
    (hlast : gap ≠ [] → w ≠ []) : Shape (sign ++ (figure ++ (gap ++ w))) := by
  obtain ⟨d, hd, hdigit⟩ := hhead
  have hfinal : ∀ c ∈ figure, isFinal c := fun c hc => by simp [isFinal, hfigure c hc]
  have hzero : ∀ u : Text, (∀ c ∈ u, isFinal c) → u.countP isBlank = 0 := fun u hu =>
    List.countP_eq_zero.2 fun c hc => not_isBlank_of_isFinal (hu c hc)
  refine ⟨?_, ?_, ?_, ?_⟩
  · cases sign with
    | nil => exact ⟨d, by simp [hd], .inl hdigit⟩
    | cons c sign => exact ⟨c, rfl, .inr (hsign c List.mem_cons_self)⟩
  · have hne : figure ≠ [] := List.ne_nil_of_mem (List.mem_of_head? hd)
    by_cases hwnil : w = []
    · have hgapnil : gap = [] := by_contra fun h => hlast h hwnil
      obtain ⟨c, hc⟩ := Option.ne_none_iff_exists'.1 (mt List.getLast?_eq_none_iff.1 hne)
      exact ⟨c, by simp [hwnil, hgapnil, hc], hfinal c (List.mem_of_getLast? hc)⟩
    · obtain ⟨c, hc⟩ := Option.ne_none_iff_exists'.1 (mt List.getLast?_eq_none_iff.1 hwnil)
      exact ⟨c, by simp [hc], hw c (List.mem_of_getLast? hc)⟩
  · intro c hc
    simp only [List.mem_append] at hc
    rcases hc with hc | hc | hc | hc
    · exact .inr (.inl (hsign c hc))
    · exact .inl (hfinal c hc)
    · exact .inr (.inr (hgap' c hc))
    · exact .inl (hw c hc)
  · have hminus : sign.countP isBlank = 0 :=
      List.countP_eq_zero.2 fun c hc => by rw [hsign c hc]; decide
    have := List.countP_le_length (p := isBlank) (l := gap)
    simp only [List.countP_append, hminus, hzero figure hfinal, hzero w hw]
    omega

theorem shape_of_isBare (h : isBare s) : Shape s := by
  have hdigit : ∀ c, isDecimalDigit c → isCountChar c := fun c hc => by simp [isCountChar, hc]
  simp only [isBare, Bool.and_eq_true, decide_eq_true_eq, List.any_eq_true] at h
  obtain ⟨⟨hpos, -⟩, groups, hgroups, fraction, hfraction, hsuffix⟩ := h
  rw [Text.drop_length_takeWhile] at hgroups
  obtain ⟨sign, hs, hsign⟩ := leaves_dropOne (p := (· = '-')) (c := '-') (by decide) s
  obtain ⟨u, hu, hall⟩ := (leaves_of_mem_afterGroups hdigit (by decide) hgroups).trans
    (leaves_of_mem_afterFraction hdigit (by decide) hfraction)
  obtain ⟨gap, w, rfl, hw, hgap, hgap', hlast⟩ := exists_of_isBareSuffix hsuffix
  have hsplit : s = sign ++ ((Text.dropOne '-' s).takeWhile isDecimalDigit ++ u ++ (gap ++ w)) := by
    conv_lhs => rw [hs, ← List.takeWhile_append_dropWhile (p := isDecimalDigit)
      (l := Text.dropOne '-' s), hu]
    simp
  rw [hsplit]
  refine shape_append (by simpa using hsign) ?_ ?_ hw hgap hgap' hlast
  · obtain ⟨c, ds, hds⟩ := List.exists_cons_of_length_pos hpos
    exact ⟨c, by rw [hds]; rfl, List.mem_takeWhile_imp (hds ▸ List.mem_cons_self)⟩
  · refine List.forall_mem_append.2 ⟨fun c hc => hdigit c (List.mem_takeWhile_imp hc), hall⟩

theorem Shape.ne_nil (h : Shape s) : s ≠ [] := by
  obtain ⟨c, hc, -⟩ := h.head
  exact List.ne_nil_of_mem (List.mem_of_head? hc)

/-- What is left of a bare amount ends as the whole does. -/
theorem Shape.getLast?_of_suffix (h : Shape s) (ht : t <:+ s) (hne : t ≠ []) :
    ∃ c, t.getLast? = some c ∧ isFinal c := by
  obtain ⟨u, rfl⟩ := ht
  obtain ⟨c, hlast, hc⟩ := h.last
  rw [List.getLast?_append_of_ne_nil _ hne] at hlast
  exact ⟨c, hlast, hc⟩

theorem Shape.not_mem (h : Shape s) (hc : isFinal c = false ∧ c ≠ '-' ∧ isBlank c = false) :
    c ∉ s := by
  intro hm
  rcases h.all c hm with hfinal | hminus | hblank
  · rw [hc.1] at hfinal
    cases hfinal
  · exact hc.2.1 hminus
  · rw [hc.2.2] at hblank
    cases hblank

theorem Shape.not_isPrivateUse (h : Shape s) (hc : isPrivateUse c) : c ∉ s := by
  have hne : ∀ d, isPrivateUse d = false → c ≠ d := by
    rintro d hd rfl
    rw [hd] at hc
    cases hc
  refine h.not_mem ⟨?_, hne '-' (by decide), not_isBlank_of_isPrivateUse hc⟩
  simp [isFinal, isCountChar, not_isDecimalDigit_of_isPrivateUse hc, not_isAlpha_of_isPrivateUse hc,
    hne ',' (by decide), hne '.' (by decide)]

/-- Nothing is trimmed off a bare amount. -/
theorem Shape.trim (h : Shape s) : Text.trim s = s := by
  obtain ⟨c, hc, hhead⟩ := h.head
  obtain ⟨d, hd, hfinal⟩ := h.last
  obtain ⟨t, ht, hblank⟩ := Text.exists_trimEnd_append s
  have hvisible : ¬ isBlank c := by
    rcases hhead with hdigit | rfl
    · simp [not_isBlank_of_isDecimalDigit hdigit]
    · decide
  have hstart : Text.trimStart s = s := by
    obtain ⟨w, rfl⟩ := List.head?_eq_some_iff.1 hc
    exact List.dropWhile_cons_of_neg hvisible
  have hend : t = [] := by
    by_contra hne
    rw [ht, List.getLast?_append_of_ne_nil _ hne] at hd
    exact not_isBlank_of_isFinal hfinal (hblank d (List.mem_of_getLast? hd))
  rw [hend, List.append_nil] at ht
  rw [Text.trim, hstart, ← ht]

end Amount

/-! ## Line ends -/

namespace Text

/-- Text that does not begin with a newline has its line ends unified by itself. -/
theorem unifyLineEnds_append {s t : Text} (h : t.head? ≠ some '\n') :
    unifyLineEnds (s ++ t) = unifyLineEnds s ++ unifyLineEnds t := by
  fun_induction unifyLineEnds s with
  | case1 => rfl
  | case2 s ih => exact congrArg ('\n' :: ·) ih
  | case3 c s hs ih =>
    rw [List.cons_append, unifyLineEnds, ih]
    · rfl
    · rintro u rfl hu
      cases s with
      | nil => exact h (by rw [← List.nil_append t, hu]; rfl)
      | cons d s =>
        cases hu
        exact hs s rfl rfl

/-- A line end of one character, whichever it is, as a newline. -/
def unifyChar (c : Char) : Char := if c = '\r' then '\n' else c

theorem isBlank_unifyChar (c : Char) : isBlank (unifyChar c) = isBlank c := by
  rw [unifyChar]
  split
  · next hc => rw [hc]; decide
  · rfl

theorem unifyChar_of_not_isBlank {c : Char} (h : ¬ isBlank c) : unifyChar c = c := by
  rw [unifyChar, if_neg]
  rintro rfl
  exact h (by decide)

/-- With one white space character at most there is no line end of two. -/
theorem unifyLineEnds_eq_map {s : Text} (h : s.countP isBlank ≤ 1) :
    unifyLineEnds s = s.map unifyChar := by
  fun_induction unifyLineEnds s with
  | case1 => rfl
  | case2 s ih =>
    have hcr : isBlank '\r' := by decide
    have hlf : isBlank '\n' := by decide
    rw [List.countP_cons_of_pos hcr, List.countP_cons_of_pos hlf] at h
    omega
  | case3 c s hs ih =>
    have hle := (List.sublist_cons_self c s).countP_le (p := isBlank)
    exact congrArg (unifyChar c :: ·) (ih (hle.trans h))

end Text

namespace Amount

variable {s : Text}

theorem Shape.unifyLineEnds_eq (h : Shape s) : Text.unifyLineEnds s = s.map Text.unifyChar :=
  Text.unifyLineEnds_eq_map h.blanks

theorem Shape.unifyLineEnds (h : Shape s) : Shape (Text.unifyLineEnds s) := by
  rw [h.unifyLineEnds_eq]
  have hfinal : ∀ c, isFinal c → Text.unifyChar c = c := fun c hc =>
    Text.unifyChar_of_not_isBlank (not_isBlank_of_isFinal hc)
  refine ⟨?_, ?_, ?_, ?_⟩
  · obtain ⟨c, hc, hhead⟩ := h.head
    have hsame : Text.unifyChar c = c := by
      rcases hhead with hdigit | rfl
      · exact hfinal c (by simp [isFinal, isCountChar, hdigit])
      · rfl
    exact ⟨c, by simp [hc, hsame], hhead⟩
  · obtain ⟨c, hc, hlast⟩ := h.last
    exact ⟨c, by simp [hc, hfinal c hlast], hlast⟩
  · refine List.forall_mem_map.2 fun c hc => ?_
    rcases h.all c hc with hc | rfl | hc
    · exact .inl ((hfinal c hc).symm ▸ hc)
    · exact .inr (.inl rfl)
    · exact .inr (.inr (by rwa [Text.isBlank_unifyChar]))
  · rw [List.countP_map]
    simpa only [Function.comp_def, Text.isBlank_unifyChar] using h.blanks

/-- On one line there is no line end to unify in a bare amount. -/
theorem Shape.unifyLineEnds_eq_self (h : Shape s) (hline : '\n' ∉ Text.unifyLineEnds s) :
    Text.unifyLineEnds s = s := by
  refine Text.unifyLineEnds_eq_self fun hm => hline ?_
  rw [h.unifyLineEnds_eq]
  exact List.mem_map.2 ⟨'\r', hm, rfl⟩

end Amount

end MarkdownPrep
