import Mathlib.Data.List.DropRight
import MarkdownPrep.Chart.Display
import MarkdownPrep.Proofs.Binary64.Fixed

/-!
# The digits of shown numbers

`Figures` holds the digits that write a magnitude with the greatest number of places, together with
what is shown of them: the digits before the point in groups (`IsGrouping`) and those after it
without zeros at the end (`IsCut`). Every format but the compact one shows a number by its figures,
with a minus if and only if the number is negative and some shown digit is not zero
(`showValue_figures`).
-/

namespace MarkdownPrep.Chart

/-! ## Groups of three -/

/-- A row of digits with a comma before each group of three, counted from the right; none stands
first. -/
def IsGrouping (ds shown : Text) : Prop :=
  ∃ (first : Text) (groups : List Text), ds = first ++ groups.flatten ∧
    shown = first ++ groups.flatMap (',' :: ·) ∧
    (0 < first.length ∧ first.length ≤ 3) ∧ ∀ group ∈ groups, group.length = 3

theorem length_flatten_of_forall {groups : List Text} (h : ∀ group ∈ groups, group.length = 3) :
    groups.flatten.length = 3 * groups.length := by
  rw [List.length_flatten, List.map_congr_left h, List.map_const', List.sum_replicate_nat,
    Nat.mul_comm]

theorem isGrouping_groupThousands {ds : Text} (h : ds ≠ []) :
    IsGrouping ds (groupThousands ds) := by
  induction ds with
  | nil => exact absurd rfl h
  | cons c ds ih =>
    cases hds : ds with
    | nil => exact ⟨[c], [], rfl, rfl, by simp, nofun⟩
    | cons d ds' =>
      rw [← hds]
      have hne : ds ≠ [] := by simp [hds]
      obtain ⟨first, groups, hwhole, hshown, hfirst, hgroups⟩ := ih hne
      have hlen : ds.length = first.length + 3 * groups.length := by
        rw [hwhole, List.length_append, length_flatten_of_forall hgroups]
      by_cases hthree : ds.length % 3 = 0
      · -- the first group of the rest is full, so `c` stands before a comma
        have hcomma : groupThousands (c :: ds) = c :: ',' :: groupThousands ds := by
          simp [groupThousands, hthree, hne]
        refine ⟨[c], first :: groups, ?_, ?_, by simp, List.forall_mem_cons.2 ⟨by omega, hgroups⟩⟩
        · rw [hwhole]
          rfl
        · rw [hcomma, hshown]
          rfl
      · have hplain : groupThousands (c :: ds) = c :: groupThousands ds := by
          simp [groupThousands, hthree]
        refine ⟨c :: first, groups, ?_, ?_, ?_, hgroups⟩
        · rw [hwhole]
          rfl
        · rw [hplain, hshown]
          rfl
        · rw [List.length_cons]
          omega

/-- Without the commas there are the digits again. -/
theorem IsGrouping.filter_eq {ds shown : Text} (h : IsGrouping ds shown) (hds : ',' ∉ ds) :
    shown.filter (· ≠ ',') = ds := by
  obtain ⟨first, groups, rfl, rfl, -, -⟩ := h
  have hkeep : ∀ part : Text, part ⊆ first ++ groups.flatten → part.filter (· ≠ ',') = part :=
    fun part hpart => List.filter_eq_self.2 fun c hc =>
      decide_eq_true fun hcomma => hds (hcomma ▸ hpart hc)
  rw [List.filter_append, hkeep first (List.subset_append_left _ _), List.filter_flatMap]
  congr 1
  rw [List.flatMap_def]
  congr 1
  conv_rhs => rw [← List.map_id groups]
  refine List.map_congr_left fun group hgroup => ?_
  rw [List.filter_cons_of_neg (by decide)]
  exact hkeep group fun c hc =>
    List.mem_append_right _ (List.mem_flatten.2 ⟨group, hgroup, hc⟩)

/-! ## Zeros at the end -/

/-- A row of digits without zeros at its end, but not fewer than `least` digits. -/
structure IsCut (least : Nat) (ds shown : Text) : Prop where
  zeros : ∃ k, ds = shown ++ List.replicate k '0'
  least_le : least ≤ shown.length
  stops : shown.length = least ∨ shown.getLast? ≠ some '0'

theorem isCut_cutZeros {least : Nat} {ds : Text} (h : least ≤ ds.length) :
    IsCut least ds (cutZeros least ds) := by
  have hcut : cutZeros least ds = ds.take least ++ (ds.drop least).rdropWhile (· = '0') := rfl
  have htake : (ds.take least).length = least := List.length_take_of_le h
  refine ⟨?_, ?_, ?_⟩
  · refine ⟨((ds.drop least).rtakeWhile (· = '0')).length, ?_⟩
    have hzeros : (ds.drop least).rtakeWhile (· = '0') =
        List.replicate ((ds.drop least).rtakeWhile (· = '0')).length '0' :=
      List.eq_replicate_of_mem fun c hc => by simpa using List.mem_rtakeWhile_imp hc
    have hparts : (ds.drop least).rdropWhile (· = '0') ++ (ds.drop least).rtakeWhile (· = '0') =
        ds.drop least := List.rdropWhile_append_rtakeWhile
    rw [← hzeros, hcut, List.append_assoc, hparts, List.take_append_drop]
  · rw [hcut, List.length_append, htake]
    exact Nat.le_add_right _ _
  · by_cases hnil : (ds.drop least).rdropWhile (· = '0') = []
    · exact .inl (by rw [hcut, hnil, List.append_nil, htake])
    · right
      rw [hcut, List.getLast?_append_of_ne_nil _ hnil, List.getLast?_eq_some_getLast hnil, ne_eq,
        Option.some_inj]
      simpa using List.rdropWhile_last_not (· = '0') (ds.drop least) hnil

theorem IsCut.subset {least : Nat} {ds shown : Text} (h : IsCut least ds shown) : shown ⊆ ds := by
  obtain ⟨k, rfl⟩ := h.zeros
  exact List.subset_append_left _ _

/-! ## Figures -/

/-- Some decimal places after their point, or nothing. -/
def withPoint (fraction : Text) : Text := if fraction.isEmpty then [] else '.' :: fraction

/-- The digits that write a magnitude and what is shown of them. -/
structure Figures (places : Places) (y : Binary64) where
  whole : Text
  fraction : Text
  shownWhole : Text
  shownFraction : Text
  renders : y.Renders places.greatest whole fraction
  grouping : IsGrouping whole shownWhole
  cut : IsCut places.least fraction shownFraction

namespace Figures

variable {places : Places} {y : Binary64}

/-- The figures that are shown of a magnitude. -/
def ofMagnitude (h : places.least ≤ places.greatest) (y : Binary64) : Figures places y where
  whole := (y.fixedParts places.greatest).1
  fraction := (y.fixedParts places.greatest).2
  shownWhole := groupThousands (y.fixedParts places.greatest).1
  shownFraction := cutZeros places.least (y.fixedParts places.greatest).2
  renders := Binary64.renders_fixedParts places.greatest y
  grouping := isGrouping_groupThousands (Binary64.renders_fixedParts places.greatest y).whole_ne_nil
  cut := isCut_cutZeros
    (h.trans_eq (Binary64.renders_fixedParts places.greatest y).length_fraction.symm)

/-- The figures as a text. -/
def text (d : Figures places y) : Text := d.shownWhole ++ withPoint d.shownFraction

/-- Some shown digit is not zero. -/
def HasNonzero (d : Figures places y) : Prop :=
  ∃ c ∈ d.shownWhole ++ d.shownFraction, c.isDigit ∧ c ≠ '0'

instance (d : Figures places y) : Decidable d.HasNonzero :=
  inferInstanceAs (Decidable (∃ c ∈ _, _))

theorem hasNonzeroDigit_text (d : Figures places y) :
    hasNonzeroDigit d.text = decide d.HasNonzero := by
  have hpoint : hasNonzeroDigit (withPoint d.shownFraction) =
      hasNonzeroDigit d.shownFraction := by
    rw [withPoint]
    cases d.shownFraction <;> rfl
  rw [hasNonzeroDigit] at hpoint
  rw [Bool.eq_iff_iff, text, hasNonzeroDigit, List.any_append, hpoint, hasNonzeroDigit,
    ← List.any_append, decide_eq_true_iff, List.any_eq_true]
  simp [HasNonzero]

/-- The shown digits before the point are the written ones with commas between. -/
theorem filter_shownWhole (d : Figures places y) : d.shownWhole.filter (· ≠ ',') = d.whole :=
  d.grouping.filter_eq fun hcomma => by
    simpa using d.renders.digits ',' (List.mem_append_left _ hcomma)

/-- Zero is shown with zeros only. -/
theorem not_hasNonzero_of_isZero (d : Figures places y) (h : y.isZero) : ¬ d.HasNonzero := by
  rintro ⟨c, hc, hdigit, hne⟩
  refine hne (d.renders.eq_zero h c ?_)
  obtain hwhole | hfraction := List.mem_append.1 hc
  · rw [← d.filter_shownWhole]
    refine List.mem_append_left _ (List.mem_filter.2 ⟨hwhole, decide_eq_true ?_⟩)
    rintro rfl
    simp at hdigit
  · exact List.mem_append_right _ (d.cut.subset hfraction)

end Figures

/-- The minus of a number that is shown with these figures. -/
def minus {places : Places} {y : Binary64} (x : Binary64) (d : Figures places y) : Text :=
  if x.isNegative ∧ d.HasNonzero then ['-'] else []

section
variable {places : Places} {x y : Binary64}

/-- Whatever is shown of a number with a digit that is not zero has the sign of the number. -/
theorem Figures.isNegative_and_hasNonzero (d : Figures places y) (hsign : y.negative = x.negative)
    (hzero : x.isZero → y.isZero) :
    y.isNegative ∧ d.HasNonzero ↔ x.isNegative ∧ d.HasNonzero := by
  refine and_congr_left fun hd => ?_
  have hy : ¬ y.isZero := fun hy => d.not_hasNonzero_of_isZero hy hd
  have hx : ¬ x.isZero := fun hx => hy (hzero hx)
  rw [Binary64.isNegative, Binary64.isNegative, hsign, Bool.eq_false_iff.2 hy,
    Bool.eq_false_iff.2 hx]

theorem showMagnitude_eq (h : places.least ≤ places.greatest) (y : Binary64) :
    showMagnitude places y = (Figures.ofMagnitude h y).text := rfl

/-- A number is shown with a minus where it is negative and its figures tell it from zero. -/
theorem showNumber_eq (h : places.least ≤ places.greatest) (hsign : y.negative = x.negative)
    (hzero : x.isZero → y.isZero) :
    showNumber places y = minus x (Figures.ofMagnitude h y) ++ (Figures.ofMagnitude h y).text := by
  have hiff := (Figures.ofMagnitude h y).isNegative_and_hasNonzero hsign hzero
  rw [showNumber, showMagnitude_eq h, Figures.hasNonzeroDigit_text, minus]
  by_cases hminus : x.isNegative ∧ (Figures.ofMagnitude h y).HasNonzero
  · rw [if_pos hminus, if_pos (by simpa using hiff.2 hminus)]
    rfl
  · rw [if_neg hminus, if_neg (by simpa using fun h h' => hminus (hiff.1 ⟨h, h'⟩))]
    rfl

end

/-! ## Values -/

/-- The format in which a style shows numbers. -/
def formatOf (f : Option NumberStyle) : NumberFormat := (f.bind (·.format)).getD .number

/-- The decimal places that a style shows. Without a style there are up to three. -/
def placesOf : Option NumberStyle → Places
  | none => ⟨0, 3⟩
  | some f => f.shownPlaces (f.format.getD .number)

/-- The number whose digits are shown: the hundredfold for a percentage, if it is finite. -/
def shownNumber? (format : NumberFormat) (x : Binary64) : Option Binary64 :=
  match format with
  | .percent => x.mul? (.ofNat 100)
  | _ => some x

/-- What stands between the minus and the digits. -/
def leading (f : Option NumberStyle) : Text :=
  match formatOf f with
  | .currency =>
    currencySign (((f.bind (·.currency)).filter fun c => !(Text.trim c).isEmpty).getD "USD".toList)
  | _ => []

/-- What stands right after the digits. -/
def trailing (f : Option NumberStyle) : Text :=
  match formatOf f with
  | .percent => ['%']
  | _ => []

/-- What a style puts before the whole text. -/
def beforeOf (f : Option NumberStyle) : Text := (f.bind (·.before)).getD []

/-- What a style puts after the whole text. -/
def afterOf (f : Option NumberStyle) : Text := (f.bind (·.after)).getD []

theorem placesOf_bounds (f : Option NumberStyle) :
    (placesOf f).least ≤ (placesOf f).greatest ∧ (placesOf f).greatest ≤ maxShownPlaces := by
  cases f with
  | none => decide
  | some f =>
    rw [placesOf, NumberStyle.shownPlaces]
    cases f.places with
    | some n => exact ⟨le_rfl, Nat.min_le_right _ _⟩
    | none => exact ⟨le_min (le_max_right _ _) (Nat.min_le_right _ _), Nat.min_le_right _ _⟩

/-- A number and the one whose digits are shown have the same sign. -/
theorem sign_of_shownNumber? {format : NumberFormat} {x y : Binary64}
    (h : shownNumber? format x = some y) : y.negative = x.negative ∧ (x.isZero → y.isZero) := by
  have hsame : ∀ {z : Binary64}, some x = some z →
      z.negative = x.negative ∧ (x.isZero → z.isZero) := by
    rintro _ ⟨⟩
    exact ⟨rfl, id⟩
  cases format with
  | percent => exact Binary64.sign_of_mul? h
  | number | compact | currency => exact hsame h

theorem display_eq {f : NumberStyle} {x y : Binary64} (hformat : formatOf f ≠ .compact)
    (hy : shownNumber? (formatOf f) x = some y) :
    f.display x = beforeOf f ++ minus x (Figures.ofMagnitude (placesOf_bounds f).1 y) ++
      leading f ++ (Figures.ofMagnitude (placesOf_bounds f).1 y).text ++ trailing f ++
        afterOf f := by
  obtain ⟨hsign, hzero⟩ := sign_of_shownNumber? hy
  have hnumber := showNumber_eq (placesOf_bounds f).1 hsign hzero
  have hget : f.format.getD .number = formatOf f := rfl
  have hplaces : f.shownPlaces (formatOf f) = placesOf f := rfl
  simp only [NumberStyle.display, hget, hplaces, leading, trailing]
  cases hf : formatOf f with
  | number =>
    rw [hf] at hy
    cases hy
    simp only [hnumber, List.append_nil, List.append_assoc]
    rfl
  | compact => exact absurd hf hformat
  | currency =>
    rw [hf] at hy
    cases hy
    simp only [showCurrency, showMagnitude_eq (placesOf_bounds f).1, Figures.hasNonzeroDigit_text,
      minus, Bool.and_eq_true, decide_eq_true_iff, List.append_nil, List.append_assoc]
    rfl
  | percent =>
    rw [hf] at hy
    have hy : x.mul? (.ofNat 100) = some y := hy
    simp only [showPercent, hy, hnumber, List.append_nil, List.append_assoc]
    rfl

theorem showValue_number {f : Option NumberStyle} {n : Json.Number} {x : Binary64}
    (hx : n.toBinary64? = some x) : showValue f (.number n) =
      match f with
      | none => showNumber ⟨0, 3⟩ x
      | some f => f.display x := by
  cases f <;> simp only [showValue, hx]

/-- **Numbers are shown by the exact digits of their magnitude.** -/
theorem showValue_figures (f : Option NumberStyle) :
    ((placesOf f).least ≤ (placesOf f).greatest ∧ (placesOf f).greatest ≤ 20) ∧
      ∀ {n : Json.Number} {x y : Binary64}, formatOf f ≠ .compact → n.toBinary64? = some x →
        shownNumber? (formatOf f) x = some y →
          ∃ d : Figures (placesOf f) y, d.shownWhole.filter (· ≠ ',') = d.whole ∧
            showValue f (.number n) =
              beforeOf f ++ minus x d ++ leading f ++ d.text ++ trailing f ++ afterOf f := by
  refine ⟨placesOf_bounds f, fun {n x y} hformat hx hy =>
    ⟨Figures.ofMagnitude (placesOf_bounds f).1 y, Figures.filter_shownWhole _, ?_⟩⟩
  rw [showValue_number hx]
  cases f with
  | none =>
    cases hy
    have hnumber : showNumber ⟨0, 3⟩ x = _ :=
      showNumber_eq (placesOf_bounds none).1 (x := x) rfl id
    simpa [beforeOf, leading, trailing, afterOf, formatOf] using hnumber
  | some f => exact display_eq hformat hy

/-- A percentage with more places than are ever shown, a debt in yen, and a number that is shown as
zero. -/
theorem showValue_figures_of_negative :
    let percent : Option NumberStyle :=
      some { format := some .percent, leastPlaces := some 1, greatestPlaces := some 4000000000 }
    let yen : Option NumberStyle :=
      some { format := some .currency, currency := some "jpy".toList, before := some ['~'] }
    let quarter := (Binary64.ofRatio 1 4).withSign true
    let percents := (Binary64.ofNat 25).withSign true
    let debt := (Binary64.ofRatio 2469135 2).withSign true
    let little := (Binary64.ofRatio 1 2500).withSign true
    (∃ d : Figures (placesOf percent) percents, d.shownWhole.filter (· ≠ ',') = d.whole ∧
        showValue percent (.number (.float quarter)) = beforeOf percent ++ minus quarter d ++
          leading percent ++ d.text ++ trailing percent ++ afterOf percent) ∧
      showValue percent (.number (.float quarter)) = "-25.0%".toList ∧
      (∃ d : Figures (placesOf yen) debt, d.shownWhole.filter (· ≠ ',') = d.whole ∧
        showValue yen (.number (.float debt)) = beforeOf yen ++ minus debt d ++ leading yen ++
          d.text ++ trailing yen ++ afterOf yen) ∧
      showValue yen (.number (.float debt)) = "~-¥1,234,568".toList ∧
      (∃ d : Figures (placesOf none) little, d.shownWhole.filter (· ≠ ',') = d.whole ∧
        showValue none (.number (.float little)) = beforeOf none ++ minus little d ++
          leading none ++ d.text ++ trailing none ++ afterOf none) ∧
      showValue none (.number (.float little)) = "0".toList := by
  intro percent yen quarter percents debt little
  have hpercents : shownNumber? (formatOf percent) quarter = some percents := by decide +kernel
  have hpercent := (showValue_figures percent).2 (n := .float quarter) (by decide) rfl hpercents
  have hyen := (showValue_figures yen).2 (n := .float debt) (by decide) rfl rfl
  have hlittle := (showValue_figures none).2 (n := .float little) (by decide) rfl rfl
  exact ⟨hpercent, by decide +kernel, hyen, by decide +kernel, hlittle, by decide +kernel⟩

end MarkdownPrep.Chart
