import Mathlib.Data.List.Nodup
import Mathlib.Data.List.Perm.Subperm
import MarkdownPrep.Text.PrivateUse

/-!
# The sentinel is fresh

`Text.unusedPrivate` gives a private use character that the text does not contain, as soon as
there is one (`unusedPrivate_not_mem`). The argument is by counting: the codes are tried in order,
and a text of `n` characters cannot hold `n + 1` of them.
-/

namespace MarkdownPrep

/-! ## The private use characters in order -/

/-- The `n`-th code, range by range. -/
theorem nthCode?_privateUseRanges {n code : Nat} :
    nthCode? n privateUseRanges = some code ↔
      (n < 6400 ∧ code = 0xE000 + n) ∨
      (6400 ≤ n ∧ n < 71934 ∧ code + 6400 = 0xF0000 + n) ∨
      (71934 ≤ n ∧ n < 137468 ∧ code + 71934 = 0x100000 + n) := by
  simp only [privateUseRanges, nthCode?]
  repeat' split
  all_goals simp only [Option.some.injEq, reduceCtorEq, false_iff]
  all_goals omega

theorem toNat_ofNat_of_valid {n : Nat} (h : n.isValidChar) : (Char.ofNat n).toNat = n := by
  rw [Char.ofNat, dif_pos h]
  rfl

theorem toNat_of_privateUse? {n : Nat} {c : Char} (h : privateUse? n = some c) :
    nthCode? n privateUseRanges = some c.toNat := by
  obtain ⟨code, hcode, rfl⟩ := Option.map_eq_some_iff.1 h
  rw [nthCode?_privateUseRanges] at hcode
  rw [toNat_ofNat_of_valid (by simp only [Nat.isValidChar]; omega)]
  exact nthCode?_privateUseRanges.2 hcode

/-- Different numbers give different characters. -/
theorem privateUse?_inj {m n : Nat} {c : Char} (hm : privateUse? m = some c)
    (hn : privateUse? n = some c) : m = n := by
  have hm := nthCode?_privateUseRanges.1 (toNat_of_privateUse? hm)
  have hn := nthCode?_privateUseRanges.1 (toNat_of_privateUse? hn)
  omega

theorem isPrivateUse_iff {c : Char} :
    isPrivateUse c ↔ (0xE000 ≤ c.toNat ∧ c.toNat ≤ 0xF8FF) ∨
      (0xF0000 ≤ c.toNat ∧ c.toNat ≤ 0xFFFFD) ∨ (0x100000 ≤ c.toNat ∧ c.toNat ≤ 0x10FFFD) := by
  simp [isPrivateUse, inRanges, privateUseRanges]

theorem isPrivateUse_of_privateUse? {n : Nat} {c : Char} (h : privateUse? n = some c) :
    isPrivateUse c := by
  have h := nthCode?_privateUseRanges.1 (toNat_of_privateUse? h)
  rw [isPrivateUse_iff]
  omega

/-- Every private use character has a number, and so has everything before it. -/
theorem exists_privateUse? {c : Char} (h : isPrivateUse c) :
    ∃ n, privateUse? n = some c ∧ ∀ m < n, ∃ d, privateUse? m = some d := by
  have key : ∀ n, nthCode? n privateUseRanges = some c.toNat →
      privateUse? n = some c ∧ ∀ m < n, ∃ d, privateUse? m = some d := by
    intro n hn
    refine ⟨by rw [privateUse?, hn]; simp, fun m hm => ?_⟩
    have hn := nthCode?_privateUseRanges.1 hn
    obtain ⟨code, hcode⟩ : ∃ code, nthCode? m privateUseRanges = some code := by
      by_cases h1 : m < 6400
      · exact ⟨0xE000 + m, nthCode?_privateUseRanges.2 (by omega)⟩
      by_cases h2 : m < 71934
      · exact ⟨0xF0000 + m - 6400, nthCode?_privateUseRanges.2 (by omega)⟩
      · exact ⟨0x100000 + m - 71934, nthCode?_privateUseRanges.2 (by omega)⟩
    exact ⟨Char.ofNat code, by rw [privateUse?, hcode]; rfl⟩
  rcases isPrivateUse_iff.1 h with h | h | h
  · exact ⟨_, key (c.toNat - 0xE000) (nthCode?_privateUseRanges.2 (by omega))⟩
  · exact ⟨_, key (c.toNat - 0xF0000 + 6400) (nthCode?_privateUseRanges.2 (by omega))⟩
  · exact ⟨_, key (c.toNat - 0x100000 + 71934) (nthCode?_privateUseRanges.2 (by omega))⟩

/-! ## The first unused one -/

theorem isPrivateUse_unusedPrivate (s : Text) : isPrivateUse s.unusedPrivate := by
  unfold Text.unusedPrivate
  cases h : (List.range (s.length + 1)).findSome? fun n =>
    (privateUse? n).filter (!s.contains ·) with
  | none => decide
  | some c =>
    obtain ⟨n, -, hn⟩ := List.exists_of_findSome?_eq_some h
    exact isPrivateUse_of_privateUse? (Option.filter_eq_some_iff.1 hn).1

/-- A text cannot hold the first `n` private use characters if it has fewer characters. -/
theorem le_length_of_privateUse? {s : Text} {n : Nat}
    (h : ∀ m < n, ∃ c ∈ s, privateUse? m = some c) : n ≤ s.length := by
  have hsub : (List.range n).filterMap privateUse? ⊆ s := by
    intro c hc
    obtain ⟨m, hm, hmc⟩ := List.mem_filterMap.1 hc
    obtain ⟨d, hd, hmd⟩ := h m (List.mem_range.1 hm)
    rw [hmc] at hmd
    cases hmd
    exact hd
  have hnodup : ((List.range n).filterMap privateUse?).Nodup := by
    refine (List.nodup_range).filterMap fun a b c ha hb => ?_
    exact privateUse?_inj ha hb
  have hlen : ((List.range n).filterMap privateUse?).length = n := by
    rw [List.length_filterMap_eq_countP, List.countP_eq_length.2, List.length_range]
    intro m hm
    obtain ⟨c, -, hc⟩ := h m (List.mem_range.1 hm)
    rw [hc]
    rfl
  exact hlen ▸ (List.subperm_of_subset hnodup hsub).length_le

/-- **The sentinel of a text does not occur in it**, if the text leaves any private use character
unused. -/
theorem unusedPrivate_not_mem {s : Text} (h : ∃ c, isPrivateUse c ∧ c ∉ s) :
    s.unusedPrivate ∉ s := by
  unfold Text.unusedPrivate
  cases hf : (List.range (s.length + 1)).findSome? fun n =>
    (privateUse? n).filter (!s.contains ·) with
  | some c =>
    obtain ⟨n, -, hn⟩ := List.exists_of_findSome?_eq_some hf
    simpa using (Option.filter_eq_some_iff.1 hn).2
  | none =>
    obtain ⟨c, hc, hcs⟩ := h
    obtain ⟨n, hn, hbelow⟩ := exists_privateUse? hc
    rw [List.findSome?_eq_none_iff] at hf
    have hused : ∀ m ∈ List.range (s.length + 1), ∀ d, privateUse? m = some d → d ∈ s := by
      intro m hm d hd
      have := hf m hm
      rw [hd] at this
      simpa using this
    by_cases hle : n ≤ s.length
    · exact absurd (hused n (List.mem_range.2 (by omega)) c hn) hcs
    · have : s.length + 1 ≤ s.length := le_length_of_privateUse? fun m hm => by
        obtain ⟨d, hd⟩ := hbelow m (by omega)
        exact ⟨d, hused m (List.mem_range.2 hm) d hd, hd⟩
      omega

end MarkdownPrep
