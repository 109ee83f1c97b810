import MarkdownPrep.Proofs.Fence.Blind

/-!
# Lines and what is trimmed

White space at either end of a text does not matter to trimming (`trim_blank_append`,
`trim_append_blank`), nor do small letters (`trim_lower`). Lines that are put together with newlines
are read back one by one (`lines_line`, `lines_flatMap`, `lines_eq_singleton`). Of such a text
trimming changes the last line only (`lines_trimEnd_join_cons_cons`), and of any text it changes no
line but for white space (`contents_trim`). The lines of a text are those of a longer one as far as
it goes (`exists_fullLines_append`). Splitting at a character leaves alone the parts that do not
have it (`splitOn_append_cons`, `exists_splitOn_append`).
-/

namespace MarkdownPrep.Text

theorem trimStart_blank_append {t : Text} (ht : ∀ c ∈ t, isBlank c) (s : Text) :
    trimStart (t ++ s) = trimStart s :=
  List.dropWhile_append_of_pos ht

theorem trimStart_eq_nil {t : Text} (ht : ∀ c ∈ t, isBlank c) : trimStart t = [] :=
  List.dropWhile_eq_nil_iff.2 ht

theorem trimStart_append_of_visible {s : Text} (h : Visible s) (t : Text) :
    trimStart (s ++ t) = trimStart s ++ t := by
  obtain ⟨c, hc, hvisible⟩ := h
  rw [trimStart, trimStart, List.dropWhile_append, if_neg]
  rw [List.isEmpty_iff, List.dropWhile_eq_nil_iff]
  exact fun hblank => hvisible (hblank c hc)

theorem visible_append_left {s : Text} (h : Visible s) (t : Text) : Visible (s ++ t) := by
  obtain ⟨c, hc, hvisible⟩ := h
  exact ⟨c, List.mem_append_left t hc, hvisible⟩

theorem trim_blank_append {t : Text} (ht : ∀ c ∈ t, isBlank c) (s : Text) :
    trim (t ++ s) = trim s := by
  rw [trim, trim, trimStart_blank_append ht]

theorem not_visible_iff {s : Text} : ¬ Visible s ↔ ∀ c ∈ s, isBlank c := by
  simp [Visible]

theorem trim_append_blank (s : Text) {t : Text} (ht : ∀ c ∈ t, isBlank c) :
    trim (s ++ t) = trim s := by
  by_cases hs : Visible s
  · rw [trim, trim, trimStart_append_of_visible hs, trimEnd_append_of_blank _ ht]
  · rw [trim_blank_append (not_visible_iff.1 hs), trim, trim, trimStart_eq_nil ht,
      trimStart_eq_nil (not_visible_iff.1 hs)]

/-- A text is what is left of it when it is trimmed, between white space. -/
theorem exists_trim_append (s : Text) : ∃ front back, s = front ++ trim s ++ back ∧
    (∀ c ∈ front, isBlank c) ∧ ∀ c ∈ back, isBlank c := by
  obtain ⟨back, hs, hback⟩ := exists_trimEnd_append (trimStart s)
  refine ⟨s.takeWhile isBlank, back, ?_, List.all_eq_true.1 List.all_takeWhile, hback⟩
  rw [List.append_assoc, trim, ← hs, trimStart, List.takeWhile_append_dropWhile]

theorem trim_trim (s : Text) : trim (trim s) = trim s := by
  obtain ⟨front, back, hs, hfront, hback⟩ := exists_trim_append s
  conv_rhs => rw [hs]
  rw [trim_append_blank _ hback, trim_blank_append hfront]

/-! ## Small letters -/

theorem isBlank_toLower (c : Char) : isBlank c.toLower = isBlank c := by
  by_cases hc : c.isUpper
  · have hcode := toNat_toLower hc
    rw [isUpper_iff] at hc
    have hnot {d : Char} (hd : 65 ≤ d.toNat ∧ d.toNat ≤ 122) : isBlank d = false := by
      simp only [isBlank, inRanges, blankRanges, List.any_cons, List.any_nil, Bool.or_false,
        Bool.or_eq_false_iff, Bool.and_eq_false_iff, decide_eq_false_iff_not]
      omega
    rw [hnot (by omega), hnot (by omega)]
  · rw [toLower_of_not_isUpper hc]

theorem trimEnd_lower (s : Text) : trimEnd (lower s) = lower (trimEnd s) := by
  induction s with
  | nil => rfl
  | cons c s ih =>
    rw [lower, List.map_cons, trimEnd, trimEnd, ← lower, ih, isBlank_toLower]
    cases trimEnd s with
    | nil => cases isBlank c <;> rfl
    | cons d t => rfl

theorem trim_lower (s : Text) : trim (lower s) = lower (trim s) := by
  have hblank : isBlank ∘ Char.toLower = isBlank := funext isBlank_toLower
  rw [trim, trim, ← trimEnd_lower, trimStart, lower, List.dropWhile_map, hblank]
  rfl

theorem lower_lower (s : Text) : lower (lower s) = lower s := by
  rw [lower, lower, List.map_map]
  exact List.map_congr_left fun c _ => toLower_toLower c

/-! ## Lines put together -/

/-- The first line of a text that has more of them. -/
theorem lines_line {l : Text} (hl : '\n' ∉ l) (s : Text) :
    lines (l ++ '\n' :: s) = dropOneEnd '\r' l :: lines s := by
  have hwhole : WholeLines (l ++ ['\n']) := .inr List.getLast?_concat
  have hend : dropLineEnd (l ++ ['\n']) = dropOneEnd '\r' l := by
    rw [dropLineEnd, if_pos List.getLast?_concat, List.dropLast_concat]
  rw [List.append_cons, lines, fullLines_append hwhole, fullLines_line hl, List.map_append,
    List.map_singleton, hend]
  rfl

/-- A text that is one line without an end. -/
theorem lines_eq_singleton {l : Text} (hl : '\n' ∉ l) (hne : l ≠ []) : lines l = [l] := by
  have hfull := fullLines_append_of_not_mem hne hl []
  rw [List.append_nil] at hfull
  have hlast : l.getLast? ≠ some '\n' := fun h => hl (List.mem_of_getLast? h)
  rw [lines, hfull, fullLines, List.map_singleton, dropLineEnd, if_neg hlast]

theorem lines_flatMap {ls : List Text} (h : ∀ l ∈ ls, '\n' ∉ l) (s : Text) :
    lines (ls.flatMap (· ++ ['\n']) ++ s) = ls.map (dropOneEnd '\r') ++ lines s := by
  induction ls with
  | nil => rfl
  | cons l ls ih =>
    rw [List.forall_mem_cons] at h
    rw [List.flatMap_cons, List.append_assoc, List.append_assoc]
    exact (lines_line h.1 _).trans (congrArg (List.cons _) (ih h.2))

theorem mem_dropOneEnd {c d : Char} {s : Text} (hne : c ≠ d) (h : c ∈ s) : c ∈ dropOneEnd d s := by
  rw [dropOneEnd]
  split
  · next hlast =>
    obtain ⟨t, rfl⟩ := List.getLast?_eq_some_iff.1 hlast
    rw [List.dropLast_concat]
    simpa [hne] using h
  · exact h

/-! ## The lines of longer and of trimmed texts -/

/-- The lines of a text go on in a longer one, the last of them perhaps further than before. -/
theorem exists_fullLines_append {s : Text} (hs : s ≠ []) (t : Text) :
    ∃ ls l u rest, fullLines s = ls ++ [l] ∧ fullLines (s ++ t) = ls ++ (l ++ u) :: rest ∧
      u ++ rest.flatten = t := by
  induction s with
  | nil => exact absurd rfl hs
  | cons c s ih =>
    cases s with
    | nil =>
      by_cases hc : c = '\n'
      · exact ⟨[], [c], [], fullLines t, by simp [fullLines, hc], by simp [fullLines, hc],
          flatten_fullLines t⟩
      · have hflat := flatten_fullLines t
        cases ht : fullLines t with
        | nil =>
          rw [ht] at hflat
          exact ⟨[], [c], [], [], by simp [fullLines, hc], by simp [fullLines, hc, ht], hflat⟩
        | cons m ms =>
          rw [ht] at hflat
          exact ⟨[], [c], m, ms, by simp [fullLines, hc], by simp [fullLines, hc, ht], hflat⟩
    | cons d s =>
      obtain ⟨ls, l, u, rest, hshort, hlong, hflat⟩ := ih (List.cons_ne_nil d s)
      by_cases hc : c = '\n'
      · exact ⟨[c] :: ls, l, u, rest, by rw [fullLines, if_pos hc, hshort]; rfl,
          by rw [List.cons_append, fullLines, if_pos hc, hlong]; rfl, hflat⟩
      · cases ls with
        | nil => exact ⟨[], c :: l, u, rest, by rw [fullLines, if_neg hc, hshort]; rfl,
            by rw [List.cons_append, fullLines, if_neg hc, hlong]; rfl, hflat⟩
        | cons m ms => exact ⟨(c :: m) :: ms, l, u, rest, by rw [fullLines, if_neg hc, hshort]; rfl,
            by rw [List.cons_append, fullLines, if_neg hc, hlong]; rfl, hflat⟩

theorem trim_of_blank {s : Text} (h : ∀ c ∈ s, isBlank c) : trim s = [] := by
  rw [trim, trimStart_eq_nil h]; rfl

theorem trim_eq_nil_iff {s : Text} : trim s = [] ↔ ∀ c ∈ s, isBlank c := by
  refine ⟨fun h c hc => ?_, trim_of_blank⟩
  by_contra hblank
  have hmem := mem_trim hc (Bool.eq_false_iff.2 hblank)
  rw [h] at hmem
  cases hmem

theorem trim_dropLineEnd (l : Text) : trim (dropLineEnd l) = trim l := by
  have hend : ∀ {c : Char} (s : Text), isBlank c → trim (s ++ [c]) = trim s := fun s hc =>
    trim_append_blank s (List.forall_mem_singleton.2 hc)
  rw [dropLineEnd]
  split
  · next hlast =>
    obtain ⟨s, rfl⟩ := List.getLast?_eq_some_iff.1 hlast
    rw [List.dropLast_concat, hend s rfl, dropOneEnd]
    split
    · next hreturn =>
      obtain ⟨s, rfl⟩ := List.getLast?_eq_some_iff.1 hreturn
      rw [List.dropLast_concat, hend s rfl]
    · rfl
  · rfl

/-- The lines of a text that are not white space, without the white space at their ends. -/
def contents (s : Text) : List Text := ((lines s).map trim).filter (!·.isEmpty)

theorem contents_eq (s : Text) : contents s = ((fullLines s).map trim).filter (!·.isEmpty) := by
  rw [contents, lines, List.map_map]
  congr 1
  exact List.map_congr_left fun l _ => trim_dropLineEnd l

theorem contents_blank_append {t : Text} (ht : ∀ c ∈ t, isBlank c) (s : Text) :
    contents (t ++ s) = contents s := by
  induction t with
  | nil => rfl
  | cons c t ih =>
    rw [List.forall_mem_cons] at ht
    have hc : ∀ d ∈ [c], isBlank d := List.forall_mem_singleton.2 ht.1
    rw [← ih ht.2, contents_eq, contents_eq, List.cons_append, fullLines]
    split
    · rw [List.map_cons, trim_of_blank hc]
      rfl
    · cases fullLines (t ++ s) with
      | nil => rw [List.map_singleton, trim_of_blank hc]; rfl
      | cons l ls => rw [List.map_cons, List.map_cons]; congr 2; exact trim_blank_append hc l

theorem contents_append_blank (s : Text) {t : Text} (ht : ∀ c ∈ t, isBlank c) :
    contents (s ++ t) = contents s := by
  by_cases hs : s = []
  · have hblank := contents_blank_append ht []
    rwa [List.append_nil, ← List.nil_append t, ← hs] at hblank
  · obtain ⟨ls, l, u, rest, hshort, hlong, rfl⟩ := exists_fullLines_append hs t
    have hrest : (rest.map trim).filter (!·.isEmpty) = [] := by
      rw [List.filter_eq_nil_iff]
      rintro _ hm
      obtain ⟨m, hmem, rfl⟩ := List.mem_map.1 hm
      rw [trim_of_blank fun c hc =>
        ht c (List.mem_append_right u (List.mem_flatten_of_mem hmem hc))]
      decide
    have hlast := trim_append_blank l fun c hc => ht c (List.mem_append_left _ hc)
    rw [contents_eq, contents_eq, hshort, hlong, List.append_cons, List.map_append,
      List.filter_append, hrest, List.append_nil, List.map_append, List.map_append,
      List.map_singleton, List.map_singleton, hlast]

theorem contents_trim (s : Text) : contents (trim s) = contents s := by
  obtain ⟨front, back, hs, hfront, hback⟩ := exists_trim_append s
  conv_rhs => rw [hs]
  rw [contents_append_blank _ hback, contents_blank_append hfront]

/-- What is done with the lines of a text one after the other can be done with its contents, if
neither white space around a line nor an empty line makes a difference. -/
theorem foldl_filter_map_trim {σ : Type} {f : σ → Text → σ} (htrim : ∀ x l, f x (trim l) = f x l)
    (hnil : ∀ x, f x [] = x) (ls : List Text) (x : σ) :
    ((ls.map trim).filter (!·.isEmpty)).foldl f x = ls.foldl f x := by
  induction ls generalizing x with
  | nil => rfl
  | cons l ls ih =>
    rw [List.map_cons, List.foldl_cons, ← htrim]
    by_cases hl : (trim l).isEmpty
    · rw [List.filter_cons_of_neg (by simp [hl]), ih, List.isEmpty_iff.1 hl, hnil]
    · rw [List.filter_cons_of_pos (by simp [hl]), List.foldl_cons, ih]

/-- Of the contents of a text only the last line may be different in a longer one. -/
theorem exists_contents_append (s t : Text) : ∃ front last more,
    contents s = front ++ last ∧ last.length ≤ 1 ∧ contents (s ++ t) = front ++ more := by
  by_cases hs : s = []
  · exact ⟨[], [], contents t, by rw [hs]; rfl, by decide, by rw [hs]; rfl⟩
  · obtain ⟨ls, l, u, rest, hshort, hlong, -⟩ := exists_fullLines_append hs t
    refine ⟨(ls.map trim).filter (!·.isEmpty), ([l].map trim).filter (!·.isEmpty),
      (((l ++ u) :: rest).map trim).filter (!·.isEmpty), ?_, List.length_filter_le _ _, ?_⟩
    · rw [contents_eq, hshort, List.map_append, List.filter_append]
    · rw [contents_eq, hlong, List.map_append, List.filter_append]

theorem dropLineEnd_prefix (l : Text) : dropLineEnd l <+: l := by
  rw [dropLineEnd]
  split
  · rw [dropOneEnd]
    split
    · exact (List.dropLast_prefix _).trans (List.dropLast_prefix l)
    · exact List.dropLast_prefix l
  · exact List.prefix_refl l

theorem mem_of_mem_lines {c : Char} {s l : Text} (hl : l ∈ lines s) (hc : c ∈ l) : c ∈ s := by
  obtain ⟨full, hfull, rfl⟩ := List.mem_map.1 hl
  have hfront := dropLineEnd_prefix full
  rw [← flatten_fullLines s]
  exact List.mem_flatten_of_mem hfull (hfront.subset hc)

/-- A character that is not white space stands in a line of its text. -/
theorem exists_mem_lines {c : Char} {s : Text} (h : c ∈ s) (hc : isBlank c = false) :
    ∃ l ∈ lines s, c ∈ l := by
  rw [← flatten_fullLines s] at h
  obtain ⟨full, hfull, hmem⟩ := List.mem_flatten.1 h
  refine ⟨dropLineEnd full, List.mem_map_of_mem hfull, mem_of_mem_trim ?_⟩
  rw [trim_dropLineEnd]
  exact mem_trim hmem hc

/-! ## Texts put together with a separator -/

theorem join_cons_cons (sep l m : Text) (ls : List Text) :
    join sep (l :: m :: ls) = l ++ sep ++ join sep (m :: ls) := by
  simp [join, List.intersperse]

theorem join_append_cons (sep : Text) (ls : List Text) (m : Text) (ms : List Text) :
    join sep (ls ++ m :: ms) = ls.flatMap (· ++ sep) ++ join sep (m :: ms) := by
  induction ls with
  | nil => rfl
  | cons l ls ih =>
    rw [List.flatMap_cons, List.append_assoc, ← ih]
    cases ls with
    | nil => exact join_cons_cons sep l m ms
    | cons k ls => exact join_cons_cons sep l k (ls ++ m :: ms)

theorem mem_of_mem_join {sep : Text} {c : Char} {ls : List Text} (h : c ∈ join sep ls) :
    c ∈ sep ∨ ∃ l ∈ ls, c ∈ l := by
  induction ls with
  | nil => cases h
  | cons l ls ih =>
    cases ls with
    | nil => exact .inr ⟨l, List.mem_cons_self, by simpa [join] using h⟩
    | cons m ls =>
      rw [join_cons_cons, List.mem_append, List.mem_append] at h
      rcases h with (hl | hsep) | hrest
      · exact .inr ⟨l, List.mem_cons_self, hl⟩
      · exact .inl hsep
      · exact (ih hrest).imp_right fun ⟨k, hk, hc⟩ => ⟨k, List.mem_cons_of_mem _ hk, hc⟩

theorem mem_join_of_mem {sep l : Text} {c : Char} {ls : List Text} (hl : l ∈ ls) (hc : c ∈ l) :
    c ∈ join sep ls := by
  induction ls with
  | nil => cases hl
  | cons k ls ih =>
    cases ls with
    | nil =>
      obtain rfl := List.mem_singleton.1 hl
      simpa [join] using hc
    | cons m ls =>
      rw [join_cons_cons]
      rcases List.mem_cons.1 hl with rfl | hl
      · exact List.mem_append_left _ (List.mem_append_left _ hc)
      · exact List.mem_append_right _ (ih hl)

theorem visible_join_append {sep l : Text} (h : Visible l) (ls : List Text) (t : Text) :
    Visible (join sep (l :: ls) ++ t) := by
  cases ls with
  | nil => simpa [join] using visible_append_left h t
  | cons m ls =>
    rw [join_cons_cons, List.append_assoc, List.append_assoc]
    exact visible_append_left h _

/-- The last line of a text may lose white space when the text is trimmed, the others do not. -/
theorem lines_trimEnd_join_cons_cons {l m : Text} (hl : '\n' ∉ l) (hm : Visible m)
    (ls : List Text) (tail : Text) :
    lines (trimEnd (join ['\n'] (l :: m :: ls) ++ tail)) =
      dropOneEnd '\r' l :: lines (trimEnd (join ['\n'] (m :: ls) ++ tail)) := by
  rw [join_cons_cons, List.append_assoc,
    trimEnd_append_of_visible _ (visible_join_append hm ls tail), List.append_assoc]
  exact lines_line hl _

/-! ## Splitting -/

theorem splitOn_append_cons {sep : Char} {s : Text} (h : sep ∉ s) (t : Text) :
    splitOn sep (s ++ sep :: t) = s :: splitOn sep t := by
  induction s with
  | nil => rw [List.nil_append, splitOn, if_pos rfl]
  | cons c s ih =>
    rw [List.mem_cons, not_or] at h
    rw [List.cons_append, splitOn, if_neg (Ne.symm h.1), ih h.2]

/-- The last part of a text goes on as far as there is no separator. -/
theorem exists_splitOn_append {sep : Char} {t : Text} (h : sep ∉ t) (s : Text) :
    ∃ ps p, splitOn sep s = ps ++ [p] ∧ splitOn sep (s ++ t) = ps ++ [p ++ t] := by
  induction s with
  | nil =>
    refine ⟨[], [], rfl, ?_⟩
    change splitOn sep t = [t]
    induction t with
    | nil => rfl
    | cons c t ih =>
      rw [List.mem_cons, not_or] at h
      rw [splitOn, if_neg (Ne.symm h.1), ih h.2]
  | cons c s ih =>
    obtain ⟨ps, p, hshort, hlong⟩ := ih
    by_cases hc : c = sep
    · exact ⟨[] :: ps, p, by rw [splitOn, if_pos hc, hshort]; rfl,
        by rw [List.cons_append, splitOn, if_pos hc, hlong]; rfl⟩
    · cases ps with
      | nil => exact ⟨[], c :: p, by rw [splitOn, if_neg hc, hshort]; rfl,
          by rw [List.cons_append, splitOn, if_neg hc, hlong]; rfl⟩
      | cons q ps => exact ⟨(c :: q) :: ps, p, by rw [splitOn, if_neg hc, hshort]; rfl,
          by rw [List.cons_append, splitOn, if_neg hc, hlong]; rfl⟩

theorem splitOn_ne_nil (sep : Char) (s : Text) : splitOn sep s ≠ [] := by
  have hnil : sep ∉ ([] : Text) := List.not_mem_nil
  obtain ⟨ps, p, h, -⟩ := exists_splitOn_append hnil s
  simp [h]

theorem splitOn_of_not_mem {sep : Char} {s : Text} (h : sep ∉ s) : splitOn sep s = [s] := by
  induction s with
  | nil => rfl
  | cons c s ih =>
    rw [List.mem_cons, not_or] at h
    rw [splitOn, if_neg (Ne.symm h.1), ih h.2]

/-- Texts put together with a separator that none of them has are split again. -/
theorem splitOn_join {sep : Char} {s : Text} {ss : List Text} (h : ∀ t ∈ s :: ss, sep ∉ t) :
    splitOn sep (join [sep] (s :: ss)) = s :: ss := by
  induction ss generalizing s with
  | nil =>
    have hone : join [sep] [s] = s := by simp [join]
    rw [hone, splitOn_of_not_mem (h s List.mem_cons_self)]
  | cons t ss ih =>
    rw [List.forall_mem_cons] at h
    rw [join_cons_cons, List.append_assoc, List.singleton_append, splitOn_append_cons h.1, ih h.2]

theorem forall_mem_splitOn_iff {sep : Char} {p : Char → Prop} (s : Text) :
    (∀ t ∈ splitOn sep s, ∀ c ∈ t, p c) ↔ ∀ c ∈ s, c = sep ∨ p c := by
  induction s with
  | nil => simp [splitOn]
  | cons c s ih =>
    rw [splitOn, List.forall_mem_cons, ← ih]
    by_cases hc : c = sep
    · simp [hc]
    · cases hsplit : splitOn sep s with
      | nil => exact absurd hsplit (splitOn_ne_nil sep s)
      | cons t ts => simp [hc, and_assoc]

/-- White space around a text does not matter to its parts, trimmed. -/
theorem map_trim_splitOn_trim {sep : Char} (hsep : isBlank sep = false) (s : Text) :
    (splitOn sep (trim s)).map trim = (splitOn sep s).map trim := by
  have hnot {t : Text} (ht : ∀ c ∈ t, isBlank c) : sep ∉ t := fun hm => by simp [ht sep hm] at hsep
  have hfront {t : Text} (ht : ∀ c ∈ t, isBlank c) (s : Text) :
      (splitOn sep (t ++ s)).map trim = (splitOn sep s).map trim := by
    induction t with
    | nil => rfl
    | cons c t ih =>
      rw [List.forall_mem_cons] at ht
      have hc : c ≠ sep := by rintro rfl; simp [ht.1] at hsep
      rw [← ih ht.2, List.cons_append, splitOn, if_neg hc]
      cases hsplit : splitOn sep (t ++ s) with
      | nil => exact absurd hsplit (splitOn_ne_nil sep _)
      | cons p ps =>
        rw [List.map_cons, List.map_cons]
        exact congrArg (· :: _) (trim_blank_append (List.forall_mem_singleton.2 ht.1) p)
  obtain ⟨front, back, hs, hblank, hblank'⟩ := exists_trim_append s
  obtain ⟨ps, p, hshort, hlong⟩ := exists_splitOn_append (hnot hblank') (trim s)
  conv_rhs => rw [hs, List.append_assoc, hfront hblank, hlong]
  rw [hshort, List.map_append, List.map_append, List.map_singleton, List.map_singleton,
    trim_append_blank p hblank']

theorem splitOnce?_append_left {sep : Char} {t : Text} (h : sep ∉ t) (s : Text) :
    splitOnce? sep (t ++ s) = (splitOnce? sep s).map fun (u, v) => (t ++ u, v) := by
  induction t with
  | nil => simp
  | cons c t ih =>
    rw [List.mem_cons, not_or] at h
    rw [List.cons_append, splitOnce?, if_neg (Ne.symm h.1), ih h.2, Option.map_map]
    rfl

theorem splitOnce?_append_right {sep : Char} {t : Text} (h : sep ∉ t) (s : Text) :
    splitOnce? sep (s ++ t) = (splitOnce? sep s).map fun (u, v) => (u, v ++ t) := by
  induction s with
  | nil =>
    have hnone := splitOnce?_append_left h []
    rw [List.append_nil] at hnone
    exact hnone
  | cons c s ih =>
    rw [List.cons_append, splitOnce?, splitOnce?]
    split
    · rfl
    · rw [ih, Option.map_map, Option.map_map]
      rfl

theorem splitOnce?_append_of_some {sep : Char} {s u v : Text} (h : splitOnce? sep s = some (u, v))
    (t : Text) : splitOnce? sep (s ++ t) = some (u, v ++ t) := by
  induction s generalizing u with
  | nil => cases h
  | cons c s ih =>
    rw [splitOnce?] at h
    rw [List.cons_append, splitOnce?]
    split at h
    · next hc =>
      cases h
      rw [if_pos hc]
    · next hc =>
      obtain ⟨⟨u', v'⟩, hsplit, heq⟩ := Option.map_eq_some_iff.1 h
      cases heq
      rw [if_neg hc, ih hsplit]
      rfl

end MarkdownPrep.Text
