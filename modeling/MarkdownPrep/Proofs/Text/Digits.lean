import Mathlib.Data.List.Induction
import Mathlib.Tactic.Ring
import MarkdownPrep.Binary64.Read
import MarkdownPrep.Proofs.Text.CharCode

/-!
# Rows of digits and the numbers they write

`digitsValue` of the digits of a number is the number again (`digitsValue_toDigits`). A row of
digits writes zero if and only if all its digits are zeros (`digitsValue_eq_zero_iff`), and it is
the only row of its number without zeros in front (`toDigits_digitsValue`) or of its length
(`digitsValue_inj`).
-/

namespace MarkdownPrep

theorem digitsValue_toDigits (n : Nat) : digitsValue (Nat.toDigits 10 n) = n := by
  have hsame : digitsValue (Nat.toDigits 10 n) = Nat.ofDigitChars 10 (Nat.toDigits 10 n) 0 := by
    simp only [digitsValue, Nat.ofDigitChars, Nat.mul_comm 10]
  rw [hsame, Nat.ofDigitChars_ten_toDigits]

/-- Digits of a number above zero start with another digit than zero. -/
theorem exists_toDigits_eq {n : Nat} (h : 0 < n) :
    ∃ c ds, Nat.toDigits 10 n = c :: ds ∧ c ≠ '0' := by
  induction n using Nat.strongRecOn with
  | _ n ih =>
    by_cases hn : n < 10
    · refine ⟨Nat.digitChar n, [], Nat.toDigits_of_lt_base hn, ?_⟩
      have hall : ∀ n < 10, 0 < n → Nat.digitChar n ≠ '0' := by decide
      exact hall n hn h
    · obtain ⟨c, ds, hds, hc⟩ := ih (n / 10) (by omega) (by omega)
      refine ⟨c, ds ++ [Nat.digitChar (n % 10)], ?_, hc⟩
      rw [Nat.toDigits_of_base_le (by decide) (by omega), hds, List.cons_append]

variable {ds ds' : Text} {c : Char}

theorem digitsValue_concat (ds : Text) (c : Char) :
    digitsValue (ds ++ [c]) = digitsValue ds * 10 + (c.toNat - '0'.toNat) := by
  rw [digitsValue, List.foldl_append, List.foldl_cons, List.foldl_nil, digitsValue]

theorem digitsValue_append (ds ds' : Text) :
    digitsValue (ds ++ ds') = digitsValue ds * 10 ^ ds'.length + digitsValue ds' := by
  induction ds' using List.reverseRecOn with
  | nil => simp [digitsValue]
  | append_singleton ds' c ih =>
    rw [← List.append_assoc, digitsValue_concat, ih, digitsValue_concat, List.length_append,
      List.length_singleton, Nat.pow_succ]
    ring

theorem digitsValue_eq_zero_iff (h : ∀ c ∈ ds, c.isDigit) :
    digitsValue ds = 0 ↔ ∀ c ∈ ds, c = '0' := by
  induction ds using List.reverseRecOn with
  | nil => simp [digitsValue]
  | append_singleton ds c ih =>
    rw [List.forall_mem_append, List.forall_mem_singleton] at h
    have hc : c.toNat - '0'.toNat = 0 ↔ c = '0' := by
      have := isDigit_iff.1 h.2
      rw [← Char.toNat_inj]
      change c.toNat - 48 = 0 ↔ c.toNat = 48
      omega
    rw [digitsValue_concat, List.forall_mem_append, List.forall_mem_singleton, ← ih h.1, ← hc]
    omega

theorem digitsValue_replicate_zero (k : Nat) : digitsValue (List.replicate k '0') = 0 :=
  (digitsValue_eq_zero_iff fun _ hc => by rw [List.eq_of_mem_replicate hc]; rfl).2
    fun _ hc => List.eq_of_mem_replicate hc

/-- Zeros in front do not count. -/
theorem digitsValue_replicate_append (k : Nat) (ds : Text) :
    digitsValue (List.replicate k '0' ++ ds) = digitsValue ds := by
  rw [digitsValue_append, digitsValue_replicate_zero, Nat.zero_mul, Nat.zero_add]

/-! ## The digits of a number are its only ones -/

theorem digit_lt (h : c.isDigit) : c.toNat - '0'.toNat < 10 := by
  have := isDigit_iff.1 h
  change c.toNat - 48 < 10
  omega

theorem digitsValue_lt (h : ∀ c ∈ ds, c.isDigit) : digitsValue ds < 10 ^ ds.length := by
  induction ds using List.reverseRecOn with
  | nil => simp [digitsValue]
  | append_singleton ds c ih =>
    rw [List.forall_mem_append, List.forall_mem_singleton] at h
    have hlt := ih h.1
    have hc := digit_lt h.2
    rw [digitsValue_concat, List.length_append, List.length_singleton, Nat.pow_succ]
    omega

/-- The number that two rows write in a row gives back what each of them writes. -/
theorem digitsValue_append_div_mod (ds : Text) (h : ∀ c ∈ ds', c.isDigit) :
    digitsValue (ds ++ ds') / 10 ^ ds'.length = digitsValue ds ∧
      digitsValue (ds ++ ds') % 10 ^ ds'.length = digitsValue ds' := by
  refine (Nat.div_mod_unique (Nat.pow_pos (by decide))).2 ⟨?_, digitsValue_lt h⟩
  rw [digitsValue_append, Nat.mul_comm, Nat.add_comm]

theorem digitChar_sub (h : c.isDigit) : Nat.digitChar (c.toNat - '0'.toNat) = c := by
  have hcode : ∀ d < 10, (Nat.digitChar d).toNat = d + 48 := by decide
  have := isDigit_iff.1 h
  change Nat.digitChar (c.toNat - 48) = c
  rw [← Char.toNat_inj, hcode _ (by omega)]
  omega

/-- A row of digits without zeros in front is the row of the number that it writes. -/
theorem toDigits_digitsValue (h : ∀ c ∈ ds, c.isDigit) (hne : ds ≠ [])
    (hlead : ds.head? = some '0' → ds = ['0']) : Nat.toDigits 10 (digitsValue ds) = ds := by
  induction ds using List.reverseRecOn with
  | nil => exact absurd rfl hne
  | append_singleton ds c ih =>
    rw [List.forall_mem_append, List.forall_mem_singleton] at h
    have hc := digit_lt h.2
    rw [digitsValue_concat]
    cases hds : ds with
    | nil =>
      rw [show digitsValue [] = 0 from rfl, Nat.zero_mul, Nat.zero_add,
        Nat.toDigits_of_lt_base hc, digitChar_sub h.2, List.nil_append]
    | cons d ds' =>
      rw [← hds]
      have hnil : ds ≠ [] := by simp [hds]
      have hd : d ≠ '0' := by
        rintro rfl
        have hzero := hlead (by simp [hds])
        simp [hds] at hzero
      have hpos : 0 < digitsValue ds := by
        refine Nat.pos_of_ne_zero fun hzero => hd ?_
        exact (digitsValue_eq_zero_iff h.1).1 hzero d (by simp [hds])
      rw [Nat.toDigits_of_base_le (by decide) (by omega), show
        (digitsValue ds * 10 + (c.toNat - '0'.toNat)) / 10 = digitsValue ds by omega, show
        (digitsValue ds * 10 + (c.toNat - '0'.toNat)) % 10 = c.toNat - '0'.toNat by omega,
        digitChar_sub h.2, ih h.1 hnil fun hhead => absurd (by simpa [hds] using hhead) hd]

/-- Rows of as many digits that write the same number are the same. -/
theorem digitsValue_inj (h : ∀ c ∈ ds, c.isDigit) (h' : ∀ c ∈ ds', c.isDigit)
    (hlen : ds.length = ds'.length) (hvalue : digitsValue ds = digitsValue ds') : ds = ds' := by
  -- with a one in front, both are the row of their number
  have hrow : ∀ row : Text, (∀ c ∈ row, c.isDigit) →
      Nat.toDigits 10 (10 ^ row.length + digitsValue row) = '1' :: row := by
    intro row hrow
    have hone : digitsValue ('1' :: row) = 10 ^ row.length + digitsValue row := by
      simpa [digitsValue] using digitsValue_append ['1'] row
    rw [← hone]
    exact toDigits_digitsValue (List.forall_mem_cons.2 ⟨rfl, hrow⟩) (by simp) (by simp)
  have hsame := hrow ds h
  rw [hlen, hvalue, hrow ds' h'] at hsame
  exact (List.cons.inj hsame).2.symm

end MarkdownPrep
