import MarkdownPrep.Proofs.Chart.ShownDigits

/-!
# The unit of a compact number

The compact format starts from the greatest unit that does not exceed the magnitude
(`unitsFrom_eq`) and goes on to the first unit in which the shown whole part has at most three
digits (`showInUnits_eq`). Together they single out the unit that is shown (`showValue_compact`).
-/

namespace MarkdownPrep.Chart

open Binary64 (one ofNat)

/-- A unit with its name that does not exceed the magnitude of a number. -/
def IsWithin (unit : Nat × Text) (x : Binary64) : Prop := unit.1 * one ≤ x.units

/-- A number counted in a unit. -/
def inUnit (x : Binary64) (unit : Nat × Text) : Binary64 := (x.div? (ofNat unit.1)).getD x

/-- The number of digits before the point when a number is shown in a unit. -/
def wholeLength (greatest : Nat) (x : Binary64) (unit : Nat × Text) : Nat :=
  ((inUnit x unit).fixedParts greatest).1.length

/-! ## Units -/

theorem units_ofNat_of_mem : ∀ unit ∈ compactUnits, (ofNat unit.1).units = unit.1 * one := by
  decide +kernel

theorem one_le_of_mem : ∀ unit ∈ compactUnits, 1 ≤ unit.1 := by decide

theorem pairwise_compactUnits : compactUnits.Pairwise fun u v => u.1 < v.1 := by decide

theorem isWithin_iff {unit : Nat × Text} (h : unit ∈ compactUnits) (x : Binary64) :
    IsWithin unit x ↔ (ofNat unit.1).code ≤ x.code := by
  rw [Binary64.code_le_iff, units_ofNat_of_mem unit h, IsWithin]

/-- Every number can be counted in every unit. -/
theorem div?_eq_inUnit {unit : Nat × Text} (h : unit ∈ compactUnits) (x : Binary64) :
    x.div? (ofNat unit.1) = some (inUnit x unit) := by
  have hone : one ≤ (ofNat unit.1).units := by
    rw [units_ofNat_of_mem unit h]
    exact Nat.le_mul_of_pos_left one (one_le_of_mem unit h)
  obtain ⟨y, hy⟩ := Binary64.exists_div?_eq_some x hone
  rw [inUnit, hy, Option.getD_some]

/-- The search starts at the greatest of the units that do not exceed the magnitude, or at the
first of all. -/
theorem unitsFrom_eq (x : Binary64) {us : List (Nat × Text)} (hne : us ≠ [])
    (hsub : us ⊆ compactUnits) : ∃ before unit after, us = before ++ unit :: after ∧
      unitsFrom x us = unit :: after ∧ (before = [] ∨ IsWithin unit x) ∧
        ∀ next ∈ after.head?, ¬ IsWithin next x := by
  induction us with
  | nil => exact absurd rfl hne
  | cons u us ih =>
    cases us with
    | nil => exact ⟨[], u, [], rfl, rfl, .inl rfl, nofun⟩
    | cons v us =>
      have hv : v ∈ compactUnits := hsub (by simp)
      by_cases hwithin : IsWithin v x
      · have hstep : unitsFrom x (u :: v :: us) = unitsFrom x (v :: us) := by
          rw [unitsFrom, if_pos ((isWithin_iff hv x).1 hwithin)]
        obtain ⟨before, unit, after, hus, hfrom, hunit, hnext⟩ :=
          ih (by simp) (List.subset_of_cons_subset hsub)
        refine ⟨u :: before, unit, after, by rw [hus]; rfl, hstep.trans hfrom, .inr ?_, hnext⟩
        obtain rfl | hunit := hunit
        · cases hus
          exact hwithin
        · exact hunit
      · refine ⟨[], u, v :: us, rfl, ?_, .inl rfl, fun next hnext => ?_⟩
        · rw [unitsFrom, if_neg (mt (isWithin_iff hv x).2 hwithin)]
        · cases hnext
          exact hwithin

/-! ## Three digits -/

theorem three_lt_wholeLength_iff {greatest : Nat} {x : Binary64} {unit : Nat × Text} :
    3 < wholeLength greatest x unit ↔ 1000 * 10 ^ greatest ≤ (inUnit x unit).inPlaces greatest := by
  rw [wholeLength, Binary64.fixedParts_fst, ← not_le, Nat.length_toDigits_le_iff (by decide)
    (by decide), not_lt, Nat.le_div_iff_mul_le (Nat.pow_pos (by decide))]

/-- A number is shown in the first unit in which it has at most three digits before the point, or in
the last one. -/
theorem showInUnits_eq {places : Places} (h : places.greatest ≤ 20) (x : Binary64)
    {us : List (Nat × Text)} (hne : us ≠ []) : ∃ before unit after, us = before ++ unit :: after ∧
      showInUnits places x us = showNumber places (inUnit x unit) ++ unit.2 ∧
        (after = [] ∨ wholeLength places.greatest x unit ≤ 3) ∧
          ∀ v ∈ before, 3 < wholeLength places.greatest x v := by
  induction us with
  | nil => exact absurd rfl hne
  | cons u us ih =>
    have hlong : (ofNat 1000).code ≤ ((inUnit x u).readBack places.greatest).code ↔
        3 < wholeLength places.greatest x u :=
      (Binary64.thousand_le_readBack_iff h).trans three_lt_wholeLength_iff.symm
    have hstep : showInUnits places x (u :: us) =
        if 3 < wholeLength places.greatest x u ∧ us ≠ [] then showInUnits places x us
        else showNumber places (inUnit x u) ++ u.2 := by
      simp [← hlong, showInUnits, inUnit, Binary64.readBack]
    by_cases hon : 3 < wholeLength places.greatest x u ∧ us ≠ []
    · obtain ⟨before, unit, after, hus, hshow, hlast, hbefore⟩ := ih hon.2
      refine ⟨u :: before, unit, after, by rw [hus]; rfl, ?_, hlast,
        List.forall_mem_cons.2 ⟨hon.1, hbefore⟩⟩
      rw [hstep, if_pos hon, hshow]
    · refine ⟨[], u, us, rfl, by rw [hstep, if_neg hon], ?_, List.forall_mem_nil _⟩
      by_cases hus : us = []
      · exact .inl hus
      · exact .inr (Nat.le_of_not_lt fun hlt => hon ⟨hlt, hus⟩)

/-! ## The unit that is shown -/

/-- Units that do not exceed the magnitude are not after the first one that is tried. -/
theorem le_of_isWithin {x : Binary64} {before after : List (Nat × Text)} {start : Nat × Text}
    (hunits : compactUnits = before ++ start :: after)
    (hnext : ∀ next ∈ after.head?, ¬ IsWithin next x) {v : Nat × Text} (hv : v ∈ compactUnits)
    (hwithin : IsWithin v x) : v.1 ≤ start.1 := by
  have hsorted := pairwise_compactUnits
  rw [hunits, List.pairwise_append, List.pairwise_cons] at hsorted
  rw [hunits, List.mem_append, List.mem_cons] at hv
  obtain hv | rfl | hv := hv
  · exact (hsorted.2.2 v hv start List.mem_cons_self).le
  · exact le_rfl
  · cases hafter : after with
    | nil => simp [hafter] at hv
    | cons next rest =>
      -- what comes after the next unit is greater still
      have hle : next.1 ≤ v.1 := by
        rw [hafter, List.mem_cons] at hv
        obtain rfl | hv := hv
        · exact le_rfl
        · exact ((List.pairwise_cons.1 (hafter ▸ hsorted.2.1.2)).1 v hv).le
      exact absurd ((Nat.mul_le_mul_right one hle).trans hwithin)
        (hnext next (by rw [hafter]; rfl))

theorem showCompact_eq {places : Places} (h : places.greatest ≤ 20) (x : Binary64) :
    ∃ unit ∈ compactUnits,
      showCompact places x = showNumber places (inUnit x unit) ++ unit.2 ∧
        (wholeLength places.greatest x unit ≤ 3 ∨ unit.2 = ['T']) ∧
        (∀ v ∈ compactUnits, IsWithin v x → v.1 ≤ unit.1) ∧
        ∀ v ∈ compactUnits, v.1 < unit.1 →
          (∃ w ∈ compactUnits, v.1 < w.1 ∧ IsWithin w x) ∨
            3 < wholeLength places.greatest x v := by
  have hne : compactUnits ≠ [] := by decide
  obtain ⟨low, start, high, hunits, hfrom, hstart, hnext⟩ :=
    unitsFrom_eq x hne (List.Subset.refl _)
  obtain ⟨skipped, unit, after, hus, hshow, hlast, hskipped⟩ :=
    showInUnits_eq h x (List.cons_ne_nil start high)
  have hsplit : compactUnits = low ++ (skipped ++ unit :: after) := by rw [hunits, hus]
  have hsorted := pairwise_compactUnits
  rw [hsplit, List.pairwise_append, List.pairwise_append, List.pairwise_cons] at hsorted
  obtain ⟨-, ⟨-, ⟨hafter, -⟩, hbelow⟩, hlow⟩ := hsorted
  have hle : start.1 ≤ unit.1 := by
    cases skipped with
    | nil =>
      cases hus
      exact le_rfl
    | cons v skipped =>
      cases hus
      exact (hbelow start List.mem_cons_self unit List.mem_cons_self).le
  refine ⟨unit, by rw [hsplit]; simp, by rw [showCompact, hfrom, hshow], ?_,
    fun v hv hwithin => (le_of_isWithin hunits hnext hv hwithin).trans hle, fun v hv hlt => ?_⟩
  · obtain rfl | hthree := hlast
    · -- the last unit of all is the one for a trillion
      have hend := congrArg List.getLast? hsplit
      rw [← List.append_assoc, List.getLast?_concat, compactUnits] at hend
      cases hend
      exact .inr rfl
    · exact .inl hthree
  · rw [hsplit, List.mem_append, List.mem_append, List.mem_cons] at hv
    obtain hv | hv | rfl | hv := hv
    · obtain rfl | hwithin := hstart
      · simp at hv
      · exact .inl ⟨start, by rw [hunits]; simp, hlow v hv start (by rw [← hus]; simp), hwithin⟩
    · exact .inr (hskipped v hv)
    · exact absurd hlt (Nat.lt_irrefl _)
    · exact absurd hlt (hafter v hv).not_gt

/-- **The compact format counts in the first unit, from the greatest one within the magnitude on, in
which at most three digits stand before the point, or else in the last one.** -/
theorem showValue_compact {f : Option NumberStyle} {n : Json.Number} {x : Binary64}
    (hformat : formatOf f = .compact) (hx : n.toBinary64? = some x) :
    ∃ unit ∈ compactUnits, ∃ y, x.div? (ofNat unit.1) = some y ∧ ∃ d : Figures (placesOf f) y,
      showValue f (.number n) = beforeOf f ++ minus x d ++ d.text ++ unit.2 ++ afterOf f ∧
        (d.whole.length ≤ 3 ∨ unit.2 = ['T']) ∧
        (∀ v ∈ compactUnits, v.1 * one ≤ x.units → v.1 ≤ unit.1) ∧
        ∀ v ∈ compactUnits, v.1 < unit.1 →
          (∃ w ∈ compactUnits, v.1 < w.1 ∧ w.1 * one ≤ x.units) ∨
            ∀ z, x.div? (ofNat v.1) = some z → ∀ d : Figures (placesOf f) z,
              3 < d.whole.length := by
  obtain ⟨hleast, hgreatest⟩ := placesOf_bounds f
  obtain ⟨unit, hunit, hshow, hthree, hwithin, hfirst⟩ := showCompact_eq hgreatest x
  have hy := div?_eq_inUnit hunit x
  obtain ⟨hsign, hzero⟩ := Binary64.sign_of_div? hy
  refine ⟨unit, hunit, _, hy, Figures.ofMagnitude hleast _, ?_, hthree, hwithin,
    fun v hv hlt => (hfirst v hv hlt).imp_right fun hlong z hz d => ?_⟩
  · rw [showNumber_eq hleast hsign hzero] at hshow
    cases f with
    | none => cases hformat
    | some f =>
      have hget : f.format.getD .number = .compact := hformat
      have hplaces : f.shownPlaces .compact = placesOf (some f) := by rw [placesOf, hget]
      rw [showValue_number hx]
      simp only [NumberStyle.display, hget, hplaces, hshow, List.append_assoc]
      rfl
  · rw [div?_eq_inUnit hv x] at hz
    cases hz
    have hwhole : d.whole = ((inUnit x v).fixedParts (placesOf f).greatest).1 :=
      congrArg Prod.fst d.renders.eq_fixedParts
    rw [hwhole]
    exact hlong

/-- Rounding takes a number just below a million, and below zero, to the next unit. -/
theorem showValue_compact_of_million :
    let f : Option NumberStyle := some { format := some .compact, after := some " users".toList }
    let x := (ofNat 999999).withSign true
    formatOf f = .compact ∧ (Json.Number.int (-999999)).toBinary64? = some x ∧
      (∃ unit ∈ compactUnits, ∃ y, x.div? (ofNat unit.1) = some y ∧ ∃ d : Figures (placesOf f) y,
        showValue f (.number (.int (-999999))) =
            minus x d ++ d.text ++ unit.2 ++ " users".toList ∧
          (d.whole.length ≤ 3 ∨ unit.2 = ['T'])) ∧
      showValue f (.number (.int (-999999))) = "-1M users".toList := by
  intro f x
  have hformat : formatOf f = .compact := by decide
  have hx : (Json.Number.int (-999999)).toBinary64? = some x := by decide +kernel
  obtain ⟨unit, hunit, y, hy, d, hshow, hthree, -⟩ := showValue_compact hformat hx
  have hbefore : beforeOf f = [] := rfl
  have hafter : afterOf f = " users".toList := rfl
  rw [hbefore, hafter, List.nil_append] at hshow
  exact ⟨hformat, hx, ⟨unit, hunit, y, hy, d, hshow, hthree⟩, by decide +kernel⟩

end MarkdownPrep.Chart
