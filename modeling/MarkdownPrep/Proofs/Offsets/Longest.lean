import MarkdownPrep.Proofs.Amount.Longest
import MarkdownPrep.Proofs.Offsets.Amount

/-!
# The longest amount by offset

The amount at an offset ends where the longest of the texts ends that are written as one
(`Amount.lexeme`) and that no letter, digit or underscore follows.
-/

namespace MarkdownPrep.Offsets

open Text Amount

/-- A stretch of the text `s` is written as an amount, given what stands before it. -/
def IsReading (s : Text) (start stop : Nat) : Prop :=
  ∃ u t v, s = u ++ t ++ v ∧ utf8Size u = start ∧ utf8Size (u ++ t) = stop ∧
    t ∈ lexeme u.getLast?

/-- A letter, a digit or an underscore stands at an offset. -/
def RunsOn (s : Text) (stop : Nat) : Prop := ∃ t, At s stop t ∧ startsWithName t

variable {s t u rest : Text} {start stop : Nat}

/-- The readings that no word goes on from are those that leave the rest of an amount. -/
theorem isReading_append_iff : IsReading (u ++ t) (utf8Size u) stop ∧ ¬ RunsOn (u ++ t) stop ↔
    ∃ rest, IsRest (lexeme u.getLast?) t rest ∧ offsetOf (u ++ t) rest = stop := by
  constructor
  · rintro ⟨⟨u', w, rest, hs, hsize, rfl, hw⟩, hruns⟩
    rw [List.append_assoc] at hs
    obtain ⟨rfl, rfl⟩ := append_inj_of_utf8Size hs hsize.symm
    have hat : At (u ++ (w ++ rest)) (utf8Size (u ++ w)) rest := ⟨u ++ w, by simp, rfl⟩
    refine ⟨rest, ⟨⟨w, hw, rfl⟩, ?_⟩, offsetOf_eq hat⟩
    exact Bool.eq_false_iff.2 fun hname => hruns ⟨rest, hat, hname⟩
  · rintro ⟨rest, ⟨⟨w, hw, rfl⟩, hname⟩, rfl⟩
    have hat : At (u ++ (w ++ rest)) (utf8Size (u ++ w)) rest := ⟨u ++ w, by simp, rfl⟩
    rw [offsetOf_eq hat]
    refine ⟨⟨u, w, rest, by simp, rfl, rfl, hw⟩, ?_⟩
    rintro ⟨v, hv, hruns⟩
    have hsame := hat.from?
    rw [hv.from?] at hsame
    cases hsame
    rw [hname] at hruns
    cases hruns

theorem offsetOf_le_of_suffix {rest' : Text} (h : rest <:+ rest') :
    offsetOf s rest' ≤ offsetOf s rest := by
  obtain ⟨v, rfl⟩ := h
  rw [offsetOf, offsetOf, utf8Size_append]
  omega

/-- The amount at a place ends at the greatest of the offsets where one may end. -/
theorem map_offsetOf_afterAmount? (u t : Text) :
    (afterAmount? u.getLast? t).map (offsetOf (u ++ t)) = some stop ↔
      IsGreatest {stop | IsReading (u ++ t) (utf8Size u) stop ∧ ¬ RunsOn (u ++ t) stop} stop := by
  have hgreatest : ∀ {rest}, afterAmount? u.getLast? t = some rest →
      IsGreatest {stop | IsReading (u ++ t) (utf8Size u) stop ∧ ¬ RunsOn (u ++ t) stop}
        (offsetOf (u ++ t) rest) := by
    intro rest h
    obtain ⟨hrest, hlongest⟩ := afterAmount?_eq_some_iff.1 h
    refine ⟨isReading_append_iff.2 ⟨rest, hrest, rfl⟩, fun stop hstop => ?_⟩
    obtain ⟨rest', hrest', rfl⟩ := isReading_append_iff.1 hstop
    exact offsetOf_le_of_suffix (hlongest rest' hrest')
  cases h : afterAmount? u.getLast? t with
  | none =>
    refine iff_of_false nofun fun hstop => ?_
    obtain ⟨rest, hrest, -⟩ := isReading_append_iff.1 hstop.1
    exact afterAmount?_eq_none_iff.1 h rest hrest
  | some rest =>
    rw [Option.map_some, Option.some.injEq]
    exact ⟨fun hstop => hstop ▸ hgreatest h, (hgreatest h).unique⟩

/-- **The amount at an offset ends where its longest reading ends that no word goes on from**, and
there is none if a word goes on from each of them. -/
theorem amountEnd?_eq_longest (s : Text) (start : Nat) : ∃ r, amountEnd? start s = some r ∧
    (∀ stop, r = some stop ↔ IsGreatest {stop | IsReading s start stop ∧ ¬ RunsOn s stop} stop) ∧
    (r = none ↔ ∀ stop, IsReading s start stop → RunsOn s stop) := by
  by_cases hplace : ∃ t, At s start t
  · obtain ⟨t, u, rfl, rfl⟩ := hplace
    refine ⟨_, amountEnd?_eq u t, fun stop => map_offsetOf_afterAmount? u t, ?_⟩
    rw [Option.map_eq_none_iff, afterAmount?_eq_none_iff]
    constructor
    · intro hnone stop hreading
      by_contra hruns
      obtain ⟨rest, hrest, -⟩ := isReading_append_iff.1 ⟨hreading, hruns⟩
      exact hnone rest hrest
    · intro hruns rest hrest
      obtain ⟨hreading, hnot⟩ := isReading_append_iff.2 ⟨rest, hrest, rfl⟩
      exact hnot (hruns _ hreading)
  · -- inside a character and past the end nothing can be read
    have hnone : ∀ stop, ¬ IsReading s start stop := by
      rintro stop ⟨u, t, v, hs, hsize, -⟩
      exact hplace ⟨t ++ v, u, by rw [hs, List.append_assoc], hsize⟩
    refine ⟨none, amountEnd?_of_not_at fun t ht => hplace ⟨t, ht⟩, fun stop => ?_, ?_⟩
    · exact iff_of_false nofun fun hstop => hnone stop hstop.1.1
    · exact iff_of_true rfl fun stop hreading => absurd hreading (hnone stop)

/-- The letter after the space is no magnitude, as a word goes on from it. -/
example : amountEnd? 0 "$1,250 kg".toList = some (some 6) := by decide +kernel

end MarkdownPrep.Offsets
