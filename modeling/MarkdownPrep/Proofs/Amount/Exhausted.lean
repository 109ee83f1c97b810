import MarkdownPrep.Proofs.Amount.Blind
import MarkdownPrep.Proofs.Amount.Longest
import MarkdownPrep.Proofs.Offsets.Amount

/-!
# Nothing is left to put aside

Where the amounts of a text were put aside, no amount stands any more (`Spent`): a dollar that was
left begins none before the next token, as it would have begun one in the text, where an amount
stands in the token's place (`afterAmount?_append_of_stops`); and of a token and the dash of a range
no amount begins.
-/

namespace MarkdownPrep

open Text

namespace Amount

/-- No amount begins in the text `s`, which stands after the character `before`. -/
def Spent (before : Option Char) (s : Text) : Prop :=
  ∀ u v, s = u ++ v → afterAmount? (u.getLast?.or before) v = none

variable {before : Option Char} {c : Char} {s t u z : Text}

theorem getLast?_cons_or (u : Text) :
    (c :: u).getLast?.or before = u.getLast?.or (some c) := by
  rw [List.getLast?_cons]
  cases u.getLast? <;> rfl

theorem spent_nil (before : Option Char) : Spent before [] := by
  intro u v h
  obtain ⟨rfl, rfl⟩ := List.append_eq_nil_iff.1 h.symm
  rfl

theorem spent_cons (hc : afterAmount? before (c :: s) = none) (h : Spent (some c) s) :
    Spent before (c :: s) := by
  intro u v hs
  cases u with
  | nil =>
    obtain rfl : c :: s = v := hs
    exact hc
  | cons d u =>
    obtain ⟨rfl, rfl⟩ := List.cons.inj hs
    rw [getLast?_cons_or]
    exact h u v rfl

/-- No amount begins before a dollar is written. -/
theorem spent_append (hdollar : '$' ∉ u) (hlast : u.getLast? ≠ some '-')
    (h : Spent (u.getLast?.or before) s) : Spent before (u ++ s) := by
  induction u generalizing before with
  | nil => exact h
  | cons c u ih =>
    rw [List.mem_cons, not_or] at hdollar
    refine spent_cons (afterAmount?_eq_none before ?_ ?_) (ih hdollar.2 ?_ ?_)
    · rintro t ht
      exact hdollar.1 (List.cons.inj ht).1.symm
    · rintro t ht
      obtain ⟨rfl, htail⟩ := List.cons.inj ht
      cases u with
      | nil => exact hlast rfl
      | cons d u =>
        obtain ⟨rfl, -⟩ := List.cons.inj htail
        exact hdollar.2 List.mem_cons_self
    · intro hu
      rw [List.getLast?_cons, hu] at hlast
      exact hlast rfl
    · rwa [getLast?_cons_or] at h

/-- What is no amount before an amount is none before a token. -/
theorem afterAmount?_append_of_stops (hz : Stops z) (ht : startsWithName t = false)
    (h : afterAmount? before (s ++ t) = none) : afterAmount? before (s ++ z) = none := by
  rw [afterAmount?_append hz, Option.map_eq_none_iff]
  refine afterAmount?_eq_none_iff.2 fun rest ⟨⟨w, hw, hs⟩, hname⟩ => ?_
  refine afterAmount?_eq_none_iff.1 h (rest ++ t) ⟨⟨w, hw, by rw [← hs, List.append_assoc]⟩, ?_⟩
  cases rest with
  | nil => exact ht
  | cons c rest => exact hname

/-! ## Tokens and dashes -/

/-- The dash of a range stands with space around it. -/
theorem exists_of_afterDash? {gap right : Text} (h : afterDash? (gap ++ right) = some right) :
    ∃ x d y, gap = x ++ d :: y ∧ (d = '-' ∨ d = '–') ∧
      (∀ c ∈ x, c = ' ' ∨ c = '\t') ∧ ∀ c ∈ y, c = ' ' ∨ c = '\t' := by
  obtain ⟨x, hx, hspace⟩ := exists_dropSpace (gap ++ right)
  rw [afterDash?] at h
  split at h
  · next d t hdrop =>
    split at h
    · next hdash =>
      obtain ⟨y, hy, hspace'⟩ := exists_dropSpace t
      rw [Option.some.injEq] at h
      rw [hdrop, hy, h] at hx
      obtain rfl : gap = x ++ d :: y := List.append_cancel_right (hx.trans (by simp))
      exact ⟨x, d, y, rfl, by simpa using hdash, hspace, hspace'⟩
    · cases h
  · cases h

/-- The dash of a range and the space around it have no dollar. -/
theorem dollar_not_mem_of_afterDash? {gap right : Text}
    (h : afterDash? (gap ++ right) = some right) : '$' ∉ gap := by
  obtain ⟨x, d, y, rfl, hdash, hx, hy⟩ := exists_of_afterDash? h
  intro hm
  rcases List.mem_append.1 hm with hm | hm
  · simpa using hx _ hm
  · rcases List.mem_cons.1 hm with rfl | hm
    · simp at hdash
    · simpa using hy _ hm

/-- No backslash ends an amount. -/
theorem IsWritten.getLast?_append_ne (h : IsWritten t) (s : Text) :
    (s ++ t).getLast? ≠ some '\\' := by
  intro hlast
  obtain ⟨c, t, rfl⟩ := List.exists_cons_of_ne_nil (List.ne_nil_of_mem h.dollar)
  rw [List.getLast?_append_cons] at hlast
  exact absurd (h.all _ (List.mem_of_getLast? hlast)) (by decide)

/-- No name goes on with an amount. -/
theorem startsWithName_of_afterAmount? {rest : Text} (h : afterAmount? before s = some rest) :
    startsWithName s = false := by
  have hdollar : isNameChar '$' = false := by decide +kernel
  have hminus : isNameChar '-' = false := by decide +kernel
  rcases head_of_afterAmount? h with hhead | hhead
  · obtain ⟨u, rfl⟩ := List.head?_eq_some_iff.1 hhead
    exact hdollar
  · obtain ⟨u, rfl⟩ := List.head?_eq_some_iff.1 hhead
    exact hminus

/-- No amount begins up to the end of a token if no dollar stands before it. -/
theorem spent_append_token {S : Char} (hS : isPrivateUse S) (hu : '$' ∉ u) (kind : Stash.Kind)
    (i : Nat) (h : Spent (some S) s) : Spent before (u ++ (Stash.token S kind i ++ s)) := by
  have hlast : (u ++ Stash.token S kind i).getLast? = some S := by
    rw [Stash.token, ← List.append_assoc, List.getLast?_concat]
  have hdollar : '$' ∉ u ++ Stash.token S kind i := by
    rw [List.mem_append, not_or]
    exact ⟨hu, (Stash.plain_of_isSign (by decide)).not_mem_token hS kind i⟩
  rw [← List.append_assoc]
  refine spent_append hdollar ?_ (hlast ▸ h)
  rw [hlast]
  rintro ⟨⟩
  exact absurd hS (by decide)

/-! ## The pass -/

/-- Before the first token a pass leaves the text as it is; where the token stands, an amount
stood. -/
theorem exists_hide_eq_append {st : Stash} (hS : isPrivateUse st.sentinel) (x s : Text) :
    ∃ k t z, s = k ++ t ∧ startsWithName t = false ∧
      (st.hide .currency (cutAfter recogniser x s)).1 = k ++ z ∧ Stops z := by
  refine cut_induction honest_recogniser (motive := fun _ s ps => ∃ k t z, s = k ++ t ∧
    startsWithName t = false ∧ (st.hide .currency ps).1 = k ++ z ∧ Stops z) ?_ ?_ ?_ x s
  · exact fun _ => ⟨[], [], [], rfl, rfl, rfl, nofun⟩
  · rintro x c s - ⟨k, t, z, rfl, ht, hout, hz⟩
    exact ⟨c :: k, t, z, rfl, ht, congrArg (c :: ·) hout, hz⟩
  · intro x u v ps hps _ _
    have hamount := mt recogniser_eq_none_iff.2 (hps ▸ Option.some_ne_none ps)
    obtain ⟨rest, hrest⟩ := Option.ne_none_iff_exists'.1 hamount
    obtain ⟨t, qs, rfl⟩ : ∃ t qs, ps = .found t :: qs := by
      obtain ⟨t, rest, -, -, rfl, -⟩ | ⟨t, gap, t', rest, -, -, -, -, rfl⟩ :=
        exists_of_recogniser hps
      · exact ⟨t, [], rfl⟩
      · exact ⟨t, _, rfl⟩
    refine ⟨[], u ++ v, _, rfl, startsWithName_of_afterAmount? hrest, rfl, fun c hc => ?_⟩
    obtain rfl : st.sentinel = c := Option.some.inj hc
    exact hS

/-- **No amount begins in what a pass leaves.** -/
theorem spent_hide (x s : Text) : ∀ (st : Stash) (before : Option Char),
    isPrivateUse st.sentinel → (before = some '\\' ↔ x.getLast? = some '\\') →
    Spent before (st.hide .currency (cutAfter recogniser x s)).1 := by
  refine cut_induction honest_recogniser (motive := fun x _ ps => ∀ (st : Stash)
    (before : Option Char), isPrivateUse st.sentinel →
    (before = some '\\' ↔ x.getLast? = some '\\') →
    Spent before (st.hide .currency ps).1) ?_ ?_ ?_ x s
  · exact fun _ _ before _ _ => spent_nil before
  · intro x c s hnone ih st before hS hbefore
    refine spent_cons ?_ (ih st (some c) hS (by rw [List.getLast?_concat]))
    obtain ⟨k, t, z, rfl, ht, hout, hz⟩ := exists_hide_eq_append hS (x ++ [c]) s
    rw [recogniser_eq_none_iff, ← afterAmount?_congr hbefore] at hnone
    rw [hout]
    exact afterAmount?_append_of_stops (s := c :: k) hz ht hnone
  · intro x u v ps hps hu ih st before hS hbefore
    have hsentinel : some st.sentinel ≠ some '\\' := by
      rw [ne_eq, Option.some.injEq]
      rintro heq
      exact absurd (heq ▸ hS) (by decide)
    -- after the last token of the step as after the amount it stands for no backslash is
    have hnext : ∀ {w t : Text}, w ++ t = u → IsWritten t → ∀ st' : Stash,
        st'.sentinel = st.sentinel → Spent (some st.sentinel)
          (st'.hide .currency (cutAfter recogniser (x ++ u) v)).1 := by
      intro w t hwt ht st' hst'
      refine ih st' _ (hst' ▸ hS) (iff_of_false hsentinel ?_)
      rw [← hwt, ← List.append_assoc]
      exact ht.getLast?_append_ne (x ++ w)
    obtain ⟨t, rest, hs, hleft, rfl, -⟩ | ⟨t, gap, t', rest, hs, hleft, hdash, hright, rfl⟩ :=
      exists_of_recogniser hps
    · rw [hs] at hleft
      have hrest := hnext (w := []) (by simpa [Piece.source] using hu)
        (isWritten_of_afterAmount? hleft) (st.put .currency t).2 rfl
      exact spent_append_token (u := []) hS List.not_mem_nil .currency st.size hrest
    · have hrest := hnext (w := t ++ gap) (by simpa [Piece.source] using hu)
        (isWritten_of_afterAmount? hright) ((st.put .currency t).2.put .currency t').2 rfl
      have hgap : Spent (some st.sentinel) _ := spent_append_token hS
        (dollar_not_mem_of_afterDash? hdash) .currency (st.put .currency t).2.size hrest
      have hall : Spent before _ :=
        spent_append_token (u := []) hS List.not_mem_nil .currency st.size hgap
      simpa [Stash.hide, Stash.hide_keep_append, Stash.put] using hall

/-- **Where amounts were put aside, none is left**: at no offset one is found any more, and putting
amounts aside again does nothing, whatever the stash. -/
theorem hide_exhausts (s : Text) :
    (∀ i, Offsets.amountEnd? i (hide s (.forText s)).1 = some none) ∧
      ∀ st, hide (hide s (.forText s)).1 st = ((hide s (.forText s)).1, st) := by
  have hspent : Spent none (hide s (.forText s)).1 :=
    spent_hide [] s (.forText s) none (isPrivateUse_unusedPrivate s) Iff.rfl
  generalize (hide s (.forText s)).1 = out at hspent
  refine ⟨fun i => ?_, fun st => ?_⟩
  · by_cases hplace : ∃ t, At out i t
    · obtain ⟨t, u, rfl, rfl⟩ := hplace
      have hnone := hspent u t rfl
      rw [Option.or_none] at hnone
      rw [Offsets.amountEnd?_eq, hnone]
      rfl
    · exact Offsets.amountEnd?_of_not_at fun t ht => hplace ⟨t, ht⟩
  · have hkeep : amounts out = Piece.keep out ++ [] := by
      have hcut := cutAfter_append_of_none (r := recogniser) (x := []) (u := out) (v := [])
        fun y c w hout => by
          have hnone := hspent y (c :: w) hout
          rw [Option.or_none] at hnone
          rwa [List.append_nil, List.nil_append, recogniser_eq_none_iff]
      rw [List.append_nil] at hcut
      exact hcut
    rw [hide, hkeep, Stash.hide_keep_append, Stash.hide, List.append_nil]

end Amount

end MarkdownPrep
