import Mathlib.Data.Nat.Log
import Mathlib.Tactic.Linarith
import MarkdownPrep.Binary64.Basic

/-!
# Rounding to the nearest number

`IsNearestEven` says what whole number a quotient is rounded to, and `divNearestEven` gives it.
Rounding is monotone, both to whole numbers (`IsNearestEven.mono`) and to numbers of the format
(`nearestCode_mono`). Codes are in the order of the magnitudes (`code_le_iff`).
-/

namespace MarkdownPrep.Binary64

/-! ## Whole numbers -/

/-- The whole number `n` is the nearest one to `num / den`, and the even one of two that are equally
near. -/
structure IsNearestEven (num den n : Nat) : Prop where
  /-- The quotient is at most a half above. -/
  above : 2 * num ≤ 2 * (n * den) + den
  /-- The quotient is at most a half below. -/
  below : 2 * (n * den) ≤ 2 * num + den
  evenAbove : 2 * num = 2 * (n * den) + den → n % 2 = 0
  evenBelow : 2 * (n * den) = 2 * num + den → n % 2 = 0

variable {num den num' den' : Nat}

theorem isNearestEven_divNearestEven (num : Nat) (hden : 0 < den) :
    IsNearestEven num den (divNearestEven num den) := by
  have hdiv : num / den * den + num % den = num := Nat.div_add_mod' num den
  have hmod : num % den < den := Nat.mod_lt _ hden
  have hsucc : (num / den + 1) * den = num / den * den + den := Nat.succ_mul _ _
  simp only [divNearestEven]
  split
  · constructor <;> omega
  · split
    · constructor <;> omega
    · -- a half: the even neighbour
      obtain heven | hodd := Nat.mod_two_eq_zero_or_one (num / den)
      · rw [heven, Nat.add_zero]
        constructor <;> omega
      · rw [hodd]
        constructor <;> omega

/-- **Rounding to whole numbers is monotone.** -/
theorem IsNearestEven.mono {n n' : Nat} (hn : IsNearestEven num den n)
    (hn' : IsNearestEven num' den' n') (hden : 0 < den) (hden' : 0 < den')
    (h : num * den' ≤ num' * den) : n ≤ n' := by
  by_contra hlt
  obtain ⟨k, rfl⟩ : ∃ k, n = n' + 1 + k := ⟨n - (n' + 1), by omega⟩
  have hlow := Nat.mul_le_mul_right den' hn.below
  have hhigh := Nat.mul_le_mul_right den hn'.above
  have hpos : 0 < den * den' := Nat.mul_pos hden hden'
  -- both quotients lie half way between `n'` and `n' + 1`
  have hk : k = 0 := by
    by_contra hk
    have hk := Nat.mul_le_mul_right (den * den') (Nat.one_le_iff_ne_zero.2 hk)
    nlinarith
  subst hk
  have htie : 2 * ((n' + 1 + 0) * den) = 2 * num + den := by
    refine Nat.eq_of_mul_eq_mul_right hden' (Nat.le_antisymm hlow ?_)
    nlinarith
  have htie' : 2 * num' = 2 * (n' * den') + den' := by
    refine Nat.eq_of_mul_eq_mul_right hden (Nat.le_antisymm hhigh ?_)
    nlinarith
  have heven := hn.evenBelow htie
  have heven' := hn'.evenAbove htie'
  omega

theorem divNearestEven_mono (hden : 0 < den) (hden' : 0 < den') (h : num * den' ≤ num' * den) :
    divNearestEven num den ≤ divNearestEven num' den' :=
  (isNearestEven_divNearestEven num hden).mono (isNearestEven_divNearestEven num' hden')
    hden hden' h

theorem divNearestEven_mul_self (n : Nat) (hden : 0 < den) : divNearestEven (n * den) den = n := by
  simp [divNearestEven, Nat.mul_div_cancel _ hden, hden]

theorem divNearestEven_le {n : Nat} (hden : 0 < den) (h : num ≤ n * den) :
    divNearestEven num den ≤ n :=
  (divNearestEven_mono hden hden (Nat.mul_le_mul_right den h)).trans_eq
    (divNearestEven_mul_self n hden)

theorem le_divNearestEven {n : Nat} (hden : 0 < den) (h : n * den ≤ num) :
    n ≤ divNearestEven num den :=
  (divNearestEven_mul_self n hden).symm.trans_le
    (divNearestEven_mono hden hden (Nat.mul_le_mul_right den h))

/-! ## Numbers of the format -/

theorem one_pos : 0 < one := by decide

/-- The scale by which a quotient is rounded, the quotient given in units. -/
def roundingScale (num den : Nat) : Nat := (num * one / den).log2 - 52

theorem nearestCode_eq (num den : Nat) : nearestCode num den =
    roundingScale num den * 2 ^ 52 +
      divNearestEven (num * one) (den * 2 ^ roundingScale num den) := by
  simp only [nearestCode, roundingScale, Nat.shiftLeft_eq]

theorem units_div_le (hden : 0 < den) (hden' : 0 < den') (h : num * den' ≤ num' * den) :
    num * one / den ≤ num' * one / den' := by
  rw [Nat.le_div_iff_mul_le hden']
  refine Nat.le_of_mul_le_mul_right ?_ hden
  calc num * one / den * den' * den = num * one / den * den * den' := by ac_rfl
    _ ≤ num * one * den' := Nat.mul_le_mul_right _ (Nat.div_mul_le_self _ _)
    _ = num * den' * one := by ac_rfl
    _ ≤ num' * den * one := Nat.mul_le_mul_right _ h
    _ = num' * one * den := by ac_rfl

theorem roundingScale_mono (hden : 0 < den) (hden' : 0 < den') (h : num * den' ≤ num' * den) :
    roundingScale num den ≤ roundingScale num' den' := by
  simp only [roundingScale, Nat.log2_eq_log_two]
  exact Nat.sub_le_sub_right (Nat.log_mono_right (units_div_le hden hden' h)) 52

/-- The mantissa has at most 53 bits, before it is rounded. -/
theorem units_lt (num : Nat) (hden : 0 < den) :
    num * one < 2 ^ 53 * (den * 2 ^ roundingScale num den) := by
  have hlog : num * one / den < 2 ^ ((num * one / den).log2 + 1) := Nat.lt_log2_self
  have hle : (num * one / den).log2 + 1 ≤ 53 + roundingScale num den := by
    rw [roundingScale]
    omega
  have hlt := Nat.lt_of_lt_of_le hlog (Nat.pow_le_pow_right (by decide) hle)
  rw [Nat.div_lt_iff_lt_mul hden, Nat.pow_add] at hlt
  calc num * one < 2 ^ 53 * 2 ^ roundingScale num den * den := hlt
    _ = 2 ^ 53 * (den * 2 ^ roundingScale num den) := by ac_rfl

/-- The mantissa has 53 bits where the scale is not the least one. -/
theorem le_units (hden : 0 < den) (hscale : 0 < roundingScale num den) :
    2 ^ 52 * (den * 2 ^ roundingScale num den) ≤ num * one := by
  have hlog : 52 + roundingScale num den = (num * one / den).log2 := by
    rw [roundingScale] at *
    omega
  have hne : num * one / den ≠ 0 := by
    intro hzero
    rw [roundingScale, hzero] at hscale
    exact absurd hscale (by decide)
  have hle := Nat.log2_self_le hne
  rw [← hlog, Nat.le_div_iff_mul_le hden, Nat.pow_add] at hle
  calc 2 ^ 52 * (den * 2 ^ roundingScale num den)
      = 2 ^ 52 * 2 ^ roundingScale num den * den := by ac_rfl
    _ ≤ num * one := hle

/-- **Rounding to numbers of the format is monotone.** -/
theorem nearestCode_mono (hden : 0 < den) (hden' : 0 < den') (h : num * den' ≤ num' * den) :
    nearestCode num den ≤ nearestCode num' den' := by
  have hpos : ∀ s, 0 < den * 2 ^ s := fun s => Nat.mul_pos hden (Nat.two_pow_pos s)
  have hpos' : ∀ s, 0 < den' * 2 ^ s := fun s => Nat.mul_pos hden' (Nat.two_pow_pos s)
  rw [nearestCode_eq, nearestCode_eq]
  obtain hscale | hscale := Nat.eq_or_lt_of_le (roundingScale_mono hden hden' h)
  · rw [hscale]
    refine Nat.add_le_add_left (divNearestEven_mono (hpos _) (hpos' _) ?_) _
    calc num * one * (den' * 2 ^ roundingScale num' den')
        = num * den' * (one * 2 ^ roundingScale num' den') := by ac_rfl
      _ ≤ num' * den * (one * 2 ^ roundingScale num' den') := Nat.mul_le_mul_right _ h
      _ = num' * one * (den * 2 ^ roundingScale num' den') := by ac_rfl
  · -- the smaller mantissa is rounded to at most `2 ^ 53`, the greater one to at least `2 ^ 52`
    have hsmall : divNearestEven (num * one) (den * 2 ^ roundingScale num den) ≤ 2 ^ 53 :=
      divNearestEven_le (hpos _) (units_lt num hden).le
    have hgreat : 2 ^ 52 ≤ divNearestEven (num' * one) (den' * 2 ^ roundingScale num' den') :=
      le_divNearestEven (hpos' _) (le_units hden' (Nat.zero_lt_of_lt hscale))
    calc roundingScale num den * 2 ^ 52 +
          divNearestEven (num * one) (den * 2 ^ roundingScale num den)
        ≤ roundingScale num den * 2 ^ 52 + 2 ^ 53 := Nat.add_le_add_left hsmall _
      _ = (roundingScale num den + 1) * 2 ^ 52 + 2 ^ 52 := by omega
      _ ≤ roundingScale num' den' * 2 ^ 52 + 2 ^ 52 :=
          Nat.add_le_add_right (Nat.mul_le_mul_right _ hscale) _
      _ ≤ _ := Nat.add_le_add_left hgreat _

/-! ## Codes and magnitudes -/

theorem scaleOf_eq (code : Nat) : scaleOf code = code / 2 ^ 52 - 1 := by
  rw [scaleOf, Nat.shiftRight_eq_div_pow]

theorem mantissaOf_eq (code : Nat) : mantissaOf code = code - scaleOf code * 2 ^ 52 :=
  congrArg (code - ·) (Nat.shiftLeft_eq (scaleOf code) 52)

theorem unitsOf_eq (code : Nat) : unitsOf code =
    (code - (code / 2 ^ 52 - 1) * 2 ^ 52) * 2 ^ (code / 2 ^ 52 - 1) := by
  rw [unitsOf, Nat.shiftLeft_eq, mantissaOf_eq, scaleOf_eq]

/-- A code after the subnormal ones is the scale and 53 bits of the mantissa. -/
theorem unitsOf_of_le {code : Nat} (h : 2 ^ 52 ≤ code) :
    unitsOf code = (2 ^ 52 + code % 2 ^ 52) * 2 ^ (code / 2 ^ 52 - 1) := by
  rw [unitsOf_eq]
  congr 1
  omega

theorem unitsOf_of_lt {code : Nat} (h : code < 2 ^ 52) : unitsOf code = code := by
  rw [unitsOf_eq, Nat.div_eq_of_lt h, Nat.zero_sub, Nat.zero_mul, Nat.sub_zero, Nat.pow_zero,
    Nat.mul_one]

theorem unitsOf_lt_succ (code : Nat) : unitsOf code < unitsOf (code + 1) := by
  by_cases hsub : code < 2 ^ 52
  · rw [unitsOf_of_lt hsub]
    obtain hsub' | hnext : code + 1 < 2 ^ 52 ∨ code + 1 = 2 ^ 52 := by omega
    · rw [unitsOf_of_lt hsub']
      exact Nat.lt_succ_self code
    · rw [unitsOf_of_le hnext.ge, hnext]
      simpa using hsub
  · rw [unitsOf_of_le (by omega), unitsOf_of_le (by omega)]
    obtain hsame | hcarry :
        (code + 1) / 2 ^ 52 = code / 2 ^ 52 ∧ (code + 1) % 2 ^ 52 = code % 2 ^ 52 + 1 ∨
          (code + 1) / 2 ^ 52 = code / 2 ^ 52 + 1 ∧ (code + 1) % 2 ^ 52 = 0 ∧
            code % 2 ^ 52 < 2 ^ 52 := by omega
    · rw [hsame.1, hsame.2]
      exact Nat.mul_lt_mul_of_pos_right (by omega) (Nat.two_pow_pos _)
    · -- the mantissa starts again at half of what it would be
      have hscale : (code + 1) / 2 ^ 52 - 1 = code / 2 ^ 52 - 1 + 1 := by omega
      rw [hscale, hcarry.2.1, Nat.pow_succ]
      calc (2 ^ 52 + code % 2 ^ 52) * 2 ^ (code / 2 ^ 52 - 1)
          < (2 ^ 52 + 2 ^ 52) * 2 ^ (code / 2 ^ 52 - 1) :=
            Nat.mul_lt_mul_of_pos_right (by omega) (Nat.two_pow_pos _)
        _ = (2 ^ 52 + 0) * (2 ^ (code / 2 ^ 52 - 1) * 2) := by omega

theorem strictMono_unitsOf : StrictMono unitsOf := strictMono_nat_of_lt_succ unitsOf_lt_succ

/-- **Codes are in the order of the magnitudes.** -/
theorem code_le_iff {x y : Binary64} : x.code ≤ y.code ↔ x.units ≤ y.units :=
  (strictMono_unitsOf.le_iff_le (a := x.code.val) (b := y.code.val)).symm

theorem units_eq_zero_iff {x : Binary64} : x.units = 0 ↔ x.isZero := by
  rw [isZero, decide_eq_true_iff]
  exact ⟨fun h => strictMono_unitsOf.injective h, fun h => by rw [units, h]; rfl⟩

/-- **A number is the one nearest to its magnitude.** -/
theorem nearestCode_unitsOf (code : Nat) : nearestCode (unitsOf code) one = code := by
  have hscale : roundingScale (unitsOf code) one = (unitsOf code).log2 - 52 := by
    rw [roundingScale, Nat.mul_div_cancel _ one_pos]
  rw [nearestCode_eq]
  by_cases hsub : code < 2 ^ 52
  · have hzero : roundingScale code one = 0 := by
      rw [← unitsOf_of_lt hsub, hscale, unitsOf_of_lt hsub, Nat.log2_eq_log_two]
      have hlt : Nat.log 2 code < 53 := Nat.log_lt_of_lt_pow' (by decide) (by omega)
      omega
    rw [unitsOf_of_lt hsub, hzero, Nat.zero_mul, Nat.zero_add, Nat.pow_zero, Nat.mul_one]
    exact divNearestEven_mul_self code one_pos
  · have hunits := unitsOf_of_le (Nat.le_of_not_lt hsub)
    have hlog : (unitsOf code).log2 = 52 + (code / 2 ^ 52 - 1) := by
      rw [Nat.log2_eq_log_two, Nat.log_eq_iff (.inl (by omega)), hunits]
      have hpow : 0 < 2 ^ (code / 2 ^ 52 - 1) := Nat.two_pow_pos _
      constructor
      · rw [Nat.pow_add]
        exact Nat.mul_le_mul_right _ (Nat.le_add_right _ _)
      · rw [Nat.add_right_comm, Nat.pow_add]
        exact Nat.mul_lt_mul_of_pos_right (by omega) hpow
    have hpos : 0 < one * 2 ^ (code / 2 ^ 52 - 1) := Nat.mul_pos one_pos (Nat.two_pow_pos _)
    have hself : unitsOf code * one =
        (2 ^ 52 + code % 2 ^ 52) * (one * 2 ^ (code / 2 ^ 52 - 1)) := by
      rw [hunits, Nat.mul_right_comm, Nat.mul_assoc]
    rw [hscale, hlog, Nat.add_sub_cancel_left, hself, divNearestEven_mul_self _ hpos]
    omega

/-! ## Products and quotients -/

theorem nearestCode_zero (den : Nat) : nearestCode 0 den = 0 := by
  simp [nearestCode, divNearestEven]

theorem ofRatio?_eq_some {negative : Bool} {y : Binary64} :
    ofRatio? negative num den = some y ↔
      y.negative = negative ∧ y.code.val = nearestCode num den := by
  rw [ofRatio?]
  split
  · constructor
    · rintro ⟨⟩
      exact ⟨rfl, rfl⟩
    · obtain ⟨sign, code⟩ := y
      rintro ⟨rfl, hcode⟩
      exact congrArg some (congrArg _ (Fin.ext hcode.symm))
  · next h => exact iff_of_false nofun fun hy => h (hy.2 ▸ y.code.isLt)

/-- A product has the sign of its first factor, and is zero where that is. -/
theorem sign_of_mul? {x y z : Binary64} (h : x.mul? z = some y) :
    y.negative = x.negative ∧ (x.isZero → y.isZero) := by
  obtain ⟨hsign, hcode⟩ := ofRatio?_eq_some.1 h
  refine ⟨hsign, fun hzero => decide_eq_true ?_⟩
  rw [hcode, units_eq_zero_iff.2 hzero, Nat.zero_mul, nearestCode_zero]

/-- A quotient has the sign of the number that is divided, and is zero where that is. -/
theorem sign_of_div? {x y z : Binary64} (h : x.div? z = some y) :
    y.negative = x.negative ∧ (x.isZero → y.isZero) := by
  obtain ⟨hsign, hcode⟩ := ofRatio?_eq_some.1 h
  refine ⟨hsign, fun hzero => decide_eq_true ?_⟩
  rw [hcode, units_eq_zero_iff.2 hzero, nearestCode_zero]

/-- A quotient by a number that is not below one is finite. -/
theorem exists_div?_eq_some (x : Binary64) {z : Binary64} (hz : one ≤ z.units) :
    ∃ y, x.div? z = some y := by
  have hle : nearestCode x.units z.units ≤ nearestCode x.units one :=
    nearestCode_mono (one_pos.trans_le hz) one_pos (Nat.mul_le_mul_left _ hz)
  have hfinite : nearestCode x.units z.units < codes :=
    (hle.trans_eq (nearestCode_unitsOf x.code)).trans_lt x.code.isLt
  exact ⟨_, dif_pos hfinite⟩

end MarkdownPrep.Binary64
