import MarkdownPrep.Binary64.Fixed
import MarkdownPrep.Proofs.Binary64.Nearest
import MarkdownPrep.Proofs.Text.Digits

/-!
# Fixed places are exact

`Renders` says which two rows of digits write a magnitude with a number of decimal places, without
saying how they are computed: the number that the digits write is the magnitude, rounded once, a
half to the even digit. `fixedParts` gives them (`renders_fixedParts`).
-/

namespace MarkdownPrep.Binary64

theorem tenTo_pos (places : Nat) : 0 < tenTo places := Nat.pow_pos (by decide)

/-- The digits before and after the point that write a magnitude with `places` decimal places. -/
structure Renders (places : Nat) (x : Binary64) (whole fraction : Text) : Prop where
  digits : ∀ c ∈ whole ++ fraction, c.isDigit
  whole_ne_nil : whole ≠ []
  /-- There is no zero in front of another digit. -/
  leading : whole.head? = some '0' → whole = ['0']
  length_fraction : fraction.length = places
  /-- All the digits in a row write the magnitude in tenths, hundredths and so on. -/
  nearest : IsNearestEven (x.units * 10 ^ places) one (digitsValue (whole ++ fraction))

variable {places : Nat} {x : Binary64}

theorem isNearestEven_inPlaces (places : Nat) (x : Binary64) :
    IsNearestEven (x.units * 10 ^ places) one (x.inPlaces places) :=
  isNearestEven_divNearestEven _ one_pos

theorem head?_toDigits {n : Nat} (h : (Nat.toDigits 10 n).head? = some '0') :
    Nat.toDigits 10 n = ['0'] := by
  obtain rfl | hpos := Nat.eq_zero_or_pos n
  · rfl
  · obtain ⟨c, ds, hds, hc⟩ := exists_toDigits_eq hpos
    rw [hds, List.head?_cons, Option.some_inj] at h
    exact absurd h hc

/-- The digits of a number below a power of ten, with zeros in front, as many as the power says. -/
theorem length_padded {n : Nat} (h : n < 10 ^ places) (hplaces : places ≠ 0) :
    (List.replicate (places - (Nat.toDigits 10 n).length) '0' ++ Nat.toDigits 10 n).length =
      places := by
  have hle := (Nat.length_toDigits_le_iff (by decide) (Nat.pos_of_ne_zero hplaces)).2 h
  rw [List.length_append, List.length_replicate]
  omega

theorem fixedParts_fst (places : Nat) (x : Binary64) :
    (x.fixedParts places).1 = Nat.toDigits 10 (x.inPlaces places / 10 ^ places) := rfl

/-- **Digits with fixed places are those of the magnitude, rounded once.** -/
theorem renders_fixedParts (places : Nat) (x : Binary64) :
    x.Renders places (x.fixedParts places).1 (x.fixedParts places).2 := by
  have hmod : x.inPlaces places % 10 ^ places < 10 ^ places := Nat.mod_lt _ (tenTo_pos places)
  have hfraction : (x.fixedParts places).2.length = places ∧
      digitsValue (x.fixedParts places).2 = x.inPlaces places % 10 ^ places ∧
      ∀ c ∈ (x.fixedParts places).2, c.isDigit := by
    by_cases hplaces : places = 0
    · subst hplaces
      exact ⟨rfl, (Nat.mod_one _).symm, nofun⟩
    · have hsnd : (x.fixedParts places).2 =
          List.replicate (places - (Nat.toDigits 10 (x.inPlaces places % 10 ^ places)).length) '0' ++
            Nat.toDigits 10 (x.inPlaces places % 10 ^ places) := if_neg hplaces
      rw [hsnd, digitsValue_replicate_append, digitsValue_toDigits, length_padded hmod hplaces]
      refine ⟨rfl, rfl, fun c hc => (List.mem_append.1 hc).elim (fun hzero => ?_)
        (Nat.isDigit_of_mem_toDigits (by decide) (by decide))⟩
      rw [List.eq_of_mem_replicate hzero]
      rfl
  refine ⟨fun c hc => (List.mem_append.1 hc).elim
    (Nat.isDigit_of_mem_toDigits (by decide) (by decide)) (hfraction.2.2 c), Nat.toDigits_ne_nil,
    head?_toDigits, hfraction.1, ?_⟩
  have hvalue : digitsValue ((x.fixedParts places).1 ++ (x.fixedParts places).2) =
      x.inPlaces places := by
    rw [digitsValue_append, hfraction.1, hfraction.2.1, fixedParts_fst, digitsValue_toDigits,
      Nat.div_add_mod']
  rw [hvalue]
  exact isNearestEven_inPlaces places x

/-- **There is one way to write a magnitude with fixed places.** -/
theorem Renders.eq_fixedParts {whole fraction : Text} (h : x.Renders places whole fraction) :
    (whole, fraction) = x.fixedParts places := by
  have h' := renders_fixedParts places x
  have hvalue := Nat.le_antisymm (h.nearest.mono h'.nearest one_pos one_pos le_rfl)
    (h'.nearest.mono h.nearest one_pos one_pos le_rfl)
  have hparts := digitsValue_append_div_mod whole fun c hc =>
    h.digits c (List.mem_append_right _ hc)
  have hparts' := digitsValue_append_div_mod (x.fixedParts places).1 fun c hc =>
    h'.digits c (List.mem_append_right _ hc)
  rw [h.length_fraction, hvalue] at hparts
  rw [h'.length_fraction] at hparts'
  have hhigh : digitsValue whole = digitsValue (x.fixedParts places).1 :=
    hparts.1.symm.trans hparts'.1
  have hlow : digitsValue fraction = digitsValue (x.fixedParts places).2 :=
    hparts.2.symm.trans hparts'.2
  refine Prod.ext ?_ ?_
  · rw [← toDigits_digitsValue (fun c hc => h.digits c (List.mem_append_left _ hc)) h.whole_ne_nil
      h.leading, hhigh, toDigits_digitsValue (fun c hc => h'.digits c (List.mem_append_left _ hc))
      h'.whole_ne_nil h'.leading]
  · exact digitsValue_inj (fun c hc => h.digits c (List.mem_append_right _ hc))
      (fun c hc => h'.digits c (List.mem_append_right _ hc))
      (h.length_fraction.trans h'.length_fraction.symm) hlow

/-- Zero has no other digits than zeros. -/
theorem Renders.eq_zero {whole fraction : Text} (h : x.Renders places whole fraction)
    (hzero : x.isZero) : ∀ c ∈ whole ++ fraction, c = '0' := by
  have hbelow := h.nearest.below
  rw [units_eq_zero_iff.2 hzero, Nat.zero_mul] at hbelow
  refine (digitsValue_eq_zero_iff h.digits).1 (Nat.eq_zero_of_not_pos fun hpos => ?_)
  have hone := Nat.mul_le_mul_right one hpos
  have := one_pos
  omega

/-! ## Digits read back -/

theorem inPlaces_le {n : Nat} (h : x.units ≤ n * one) : x.inPlaces places ≤ n * 10 ^ places := by
  refine divNearestEven_le one_pos ((Nat.mul_le_mul_right (tenTo places) h).trans_eq ?_)
  rw [Nat.mul_right_comm]
  rfl

theorem le_inPlaces {n : Nat} (h : n * one ≤ x.units) : n * 10 ^ places ≤ x.inPlaces places := by
  refine le_divNearestEven one_pos (Eq.trans_le ?_ (Nat.mul_le_mul_right (tenTo places) h))
  rw [Nat.mul_right_comm]
  rfl

/-- The number that the digits of a magnitude read back as; the magnitude where they read back as
no finite number. -/
def readBack (places : Nat) (x : Binary64) : Binary64 := (x.roundedTo places).getD x

theorem units_thousand : (ofNat 1000).units = 1000 * one := by decide +kernel

theorem code_thousand : (ofNat 1000).code.val = nearestCode 1000 1 := by decide +kernel

/-- The digits of the greatest number below a thousand, if they do not write a thousand themselves,
read back as a number below a thousand. -/
theorem nearestCode_below_thousand : ∀ places ≤ 20,
    nearestCode (min (1000 * tenTo places - 1)
      (divNearestEven (unitsOf ((ofNat 1000).code - 1) * tenTo places) one)) (tenTo places) <
        nearestCode 1000 1 := by
  decide +kernel

/-- **Digits read back as at least a thousand if and only if they write at least a thousand.** -/
theorem thousand_le_readBack_iff (h : places ≤ 20) :
    (ofNat 1000).code ≤ (x.readBack places).code ↔ 1000 * 10 ^ places ≤ x.inPlaces places := by
  have hten : 0 < 10 ^ places := tenTo_pos places
  by_cases hx : (ofNat 1000).code ≤ x.code
  · have hle : 1000 * 10 ^ places ≤ x.inPlaces places :=
      le_inPlaces (units_thousand.symm.trans_le (code_le_iff.1 hx))
    refine iff_of_true ?_ hle
    rw [readBack]
    cases hr : x.roundedTo places with
    | none => exact hx
    | some r =>
      rw [Option.getD_some, Fin.le_def, (ofRatio?_eq_some.1 hr).2, code_thousand]
      exact nearestCode_mono Nat.one_pos hten (hle.trans_eq (Nat.mul_one _).symm)
  · have hbelow : x.units ≤ unitsOf ((ofNat 1000).code - 1) := by
      refine strictMono_unitsOf.monotone ?_
      have hlt : x.code.val < (ofNat 1000).code.val := Nat.lt_of_not_le hx
      omega
    have hunits : x.units ≤ 1000 * one :=
      hbelow.trans ((strictMono_unitsOf.monotone (Nat.sub_le _ 1)).trans_eq units_thousand)
    -- the digits write at most a thousand, so they read back as a finite number
    have hcode : nearestCode (x.inPlaces places) (10 ^ places) < codes := by
      have hthousand : x.inPlaces places * 1 ≤ 1000 * 10 ^ places := by
        simpa using inPlaces_le hunits
      exact (nearestCode_mono hten Nat.one_pos hthousand).trans_lt
        (code_thousand.symm.trans_lt (ofNat 1000).code.isLt)
    have hround : x.roundedTo places = some ⟨false, ⟨_, hcode⟩⟩ := dif_pos hcode
    rw [readBack, hround, Option.getD_some, Fin.le_def, code_thousand]
    refine ⟨fun hle => ?_, fun hle =>
      nearestCode_mono Nat.one_pos hten (hle.trans_eq (Nat.mul_one _).symm)⟩
    by_contra hlt
    refine absurd hle (Nat.not_le_of_lt ?_)
    refine (nearestCode_mono hten (tenTo_pos places)
      (Nat.mul_le_mul_right _ (le_min ?_ ?_))).trans_lt (nearestCode_below_thousand places h)
    · exact Nat.le_sub_one_of_lt (not_le.1 hlt)
    · exact divNearestEven_mono one_pos one_pos
        (Nat.mul_le_mul_right _ (Nat.mul_le_mul_right _ hbelow))

end MarkdownPrep.Binary64
