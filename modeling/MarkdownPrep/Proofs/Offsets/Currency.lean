import MarkdownPrep.Proofs.Offsets.Amount
import MarkdownPrep.Proofs.Stash.Cells

/-!
# Amounts put aside by offset
-/

namespace MarkdownPrep

namespace Offsets

open Text

/-! ## Ranges -/

/-- The right side of a range is looked for where the dash leaves the text, and no backslash stands
before it. -/
theorem dashEnd?_eq {s t : Text} {i : Nat} (h : At s i t) :
    match Amount.afterDash? t with
    | none => dashEnd? i s = some none
    | some right => ∃ j w, dashEnd? i s = some (some j) ∧ s = w ++ right ∧
        skipSpace j s = utf8Size w ∧ w.getLast? ≠ some '\\' := by
  have hat := at_skipSpace h
  rw [dashEnd?, Amount.afterDash?]
  simp only [hat.from?, Option.bind_eq_bind, Option.bind_some]
  cases hdash : Amount.dropSpace t with
  | nil => rfl
  | cons c t' =>
    rw [hdash] at hat
    obtain ⟨u, hu, -⟩ := id hat
    obtain ⟨x, hx, hspace⟩ := Amount.exists_dropSpace t'
    -- what the dash and a space after it leave
    have hright : (c = '-' ∨ c = '–') → s = (u ++ c :: x) ++ Amount.dropSpace t' ∧
        skipSpace (skipSpace i s + c.utf8Size) s = utf8Size (u ++ c :: x) ∧
        (u ++ c :: x).getLast? ≠ some '\\' := by
      intro hc
      have hs : s = (u ++ c :: x) ++ Amount.dropSpace t' := by simp [hu, ← hx]
      refine ⟨hs, ?_, ?_⟩
      · obtain ⟨w, hw, hsize⟩ := at_skipSpace hat.cons
        rw [← hsize, List.append_cancel_right (hs.symm.trans hw)]
      · intro hlast
        rw [List.getLast?_append_cons] at hlast
        have hnone : ∀ d ∈ c :: x, d ≠ '\\' := by
          rintro d hd rfl
          obtain rfl | hd := List.mem_cons.1 hd
          · simp at hc
          · simpa using hspace _ hd
        exact hnone _ (List.mem_of_getLast? hlast) rfl
    by_cases hc : c = '-' ∨ c = '–'
    · dsimp only
      rw [if_pos (by simpa using hc)]
      obtain rfl | rfl := hc
      · exact ⟨_, _, rfl, hright (.inl rfl)⟩
      · exact ⟨_, _, rfl, hright (.inr rfl)⟩
    · dsimp only
      rw [if_neg (by simpa using hc)]
      rw [not_or] at hc
      simp only [List.head?_cons]
      split
      · next heq => exact absurd (Option.some.inj heq) hc.1
      · next heq => exact absurd (Option.some.inj heq) hc.2
      · rfl

/-- The range that stands after `u`. -/
theorem range?_eq (u t : Text) : range? (utf8Size u) (u ++ t) = some (do
    let rest ← Amount.afterAmount? u.getLast? t
    let right ← Amount.afterDash? rest
    let rest' ← Amount.afterAmount? none right
    return ⟨offsetOf (u ++ t) rest, offsetOf (u ++ t) right, offsetOf (u ++ t) rest'⟩) := by
  rw [range?, amountEnd?_eq]
  cases hleft : Amount.afterAmount? u.getLast? t with
  | none => rfl
  | some rest =>
    have hsuffix := (Amount.isSuffix_of_afterAmount? hleft).trans (List.suffix_append u t)
    have hdash := dashEnd?_eq (at_offsetOf hsuffix)
    cases hright : Amount.afterDash? rest with
    | none =>
      rw [hright] at hdash
      simp [hdash, hright]
    | some right =>
      rw [hright] at hdash
      obtain ⟨j, w, hj, hw, hskip, hlast⟩ := hdash
      have hend := amountEnd?_eq w right
      rw [← hw, Amount.afterAmount?_eq_of_ne hlast, ← hskip] at hend
      have hstart : offsetOf (u ++ t) right = skipSpace j (u ++ t) :=
        offsetOf_eq ⟨w, hw, hskip.symm⟩
      cases hrest : Amount.afterAmount? none right <;> simp [hj, hend, hright, hrest, hstart]

/-! ## The pass -/

/-- **What is put aside at one place** is what an amount is taken off from there. -/
theorem hideAmountAt?_eq (u k t out : Text) (st : Stash) :
    hideAmountAt? (u ++ k ++ t) (utf8Size u) (utf8Size (u ++ k)) out st = some
      ((Amount.recogniser (u ++ k).getLast? t).map fun ps => (utf8Size (u ++ k ++ Piece.sources ps),
        out ++ k ++ (st.hide .currency ps).1, (st.hide .currency ps).2)) := by
  rw [hideAmountAt?, range?_eq, amountEnd?_eq]
  cases hps : Amount.recogniser (u ++ k).getLast? t with
  | none =>
    rw [Amount.recogniser_eq_none_iff] at hps
    rw [hps]
    rfl
  | some ps =>
    obtain ⟨a, v, rfl, hleft, rfl, hright⟩ | ⟨a, gap, b, v, rfl, hleft, hdash, hright, rfl⟩ :=
      Amount.exists_of_recogniser hps
    · have hbefore := slice?_append u k (a ++ v)
      have hamount := slice?_append (u ++ k) a v
      have hend := offsetOf_append (u ++ k ++ a) v
      rw [← List.append_assoc u] at hbefore
      rw [List.append_assoc _ a v] at hend
      have hrange : ((Amount.afterDash? v).bind fun right =>
          (Amount.afterAmount? none right).bind fun rest' =>
            some (Range.mk (offsetOf (u ++ k ++ (a ++ v)) v)
              (offsetOf (u ++ k ++ (a ++ v)) right) (offsetOf (u ++ k ++ (a ++ v)) rest'))) =
          none := by
        cases hdash : Amount.afterDash? v with
        | none => rfl
        | some right => simp [hright right hdash]
      simp only [hleft, Option.bind_eq_bind, Option.pure_def, Option.bind_some, hrange]
      simp only [Option.map_some, hend, hbefore, hamount, Option.bind_some]
      simp [Stash.hide, Piece.source]
    · have hbefore := slice?_append u k (a ++ (gap ++ (b ++ v)))
      have hamount := slice?_append (u ++ k) a (gap ++ (b ++ v))
      have hgap := slice?_append (u ++ k ++ a) gap (b ++ v)
      have hamount' := slice?_append (u ++ k ++ a ++ gap) b v
      have hend := offsetOf_append (u ++ k ++ a) (gap ++ (b ++ v))
      have hend' := offsetOf_append (u ++ k ++ a ++ gap) (b ++ v)
      have hend'' := offsetOf_append (u ++ k ++ a ++ gap ++ b) v
      rw [← List.append_assoc u] at hbefore
      rw [List.append_assoc _ b v] at hend''
      rw [List.append_assoc _ gap (b ++ v)] at hend' hend'' hamount'
      rw [List.append_assoc _ a (gap ++ (b ++ v))] at hend hend' hend'' hgap hamount'
      simp only [hleft, hdash, hright, Option.bind_eq_bind, Option.pure_def, Option.bind_some,
        Option.map_some, hend, hend', hend'', hbefore, hamount, hgap, hamount']
      simp [Stash.hide, Piece.source, Stash.hide_keep_append]

section
variable {fuel cursor : Nat} {out : Text} {st : Stash}

/-- Where a dollar or a dash stands, the loop looks for an amount. -/
theorem hideAmountsFrom?_look {x t : Text} (h : t.head? = some '$' ∨ t.head? = some '-') :
    hideAmountsFrom? (x ++ t) (fuel + 1) cursor (utf8Size x) out st =
      (hideAmountAt? (x ++ t) cursor (utf8Size x) out st).bind fun
        | some (stop, out, st) => hideAmountsFrom? (x ++ t) fuel stop stop out st
        | none => hideAmountsFrom? (x ++ t) fuel cursor (utf8Size x + 1) out st := by
  have hat : At (x ++ t) (utf8Size x) t := ⟨x, rfl, rfl⟩
  have hlook : (!isAt '$' (utf8Size x) (x ++ t) && !isAt '-' (utf8Size x) (x ++ t)) = false := by
    rw [hat.isAt (by decide), hat.isAt (by decide)]
    rcases h with h | h <;> simp [h]
  have hlt : ¬ (x ++ t).bytes.length ≤ utf8Size x := by
    cases t with
    | nil => simp at h
    | cons c t => exact hat.not_length_le
  rw [hideAmountsFrom?, if_neg hlt, hlook]
  rfl

/-- A character where no amount stands is gone over. -/
theorem hideAmountsFrom?_kept {u k : Text} {c : Char} {t : Text}
    (hnone : Amount.recogniser (u ++ k).getLast? (c :: t) = none) :
    hideAmountsFrom? (u ++ k ++ c :: t) (fuel + c.utf8Size) (utf8Size u) (utf8Size (u ++ k)) out
        st =
      hideAmountsFrom? (u ++ k ++ c :: t) fuel (utf8Size u) (utf8Size (u ++ k ++ [c])) out st := by
  have hat : At (u ++ k ++ c :: t) (utf8Size (u ++ k)) (c :: t) := ⟨u ++ k, rfl, rfl⟩
  rw [utf8Size_concat]
  by_cases hc : c = '$' ∨ c = '-'
  · have hone : c.utf8Size = 1 := by rcases hc with rfl | rfl <;> rfl
    rw [hone, hideAmountsFrom?_look (by simpa using hc), hideAmountAt?_eq, hnone]
    rfl
  · rw [not_or] at hc
    refine hat.skip (f := fun fuel i => hideAmountsFrom? _ fuel _ i out st) ?_ fuel
    intro fuel j hlt hother
    rw [hideAmountsFrom?, if_neg (Nat.not_le.2 hlt), hother '$' (by decide) hc.1,
      hother '-' (by decide) hc.2]
    rfl

/-- What an amount is taken off from is put aside. -/
theorem hideAmountsFrom?_found {u k t : Text} {ps : List Piece}
    (hps : Amount.recogniser (u ++ k).getLast? t = some ps) :
    hideAmountsFrom? (u ++ k ++ t) (fuel + 1) (utf8Size u) (utf8Size (u ++ k)) out st =
      hideAmountsFrom? (u ++ k ++ t) fuel (utf8Size (u ++ k ++ Piece.sources ps))
        (utf8Size (u ++ k ++ Piece.sources ps)) (out ++ k ++ (st.hide .currency ps).1)
        (st.hide .currency ps).2 := by
  have hne := mt Amount.recogniser_eq_none_iff.2 (hps ▸ Option.some_ne_none ps)
  obtain ⟨rest, hrest⟩ := Option.ne_none_iff_exists'.1 hne
  rw [hideAmountsFrom?_look (Amount.head_of_afterAmount? hrest), hideAmountAt?_eq, hps]
  rfl

end

/-- **Amounts are put aside by offset** as they are from the text, from any place on. -/
theorem hideAmountsFrom?_eq (x t : Text) : ∀ (u k : Text) (fuel : Nat) (out : Text) (st : Stash),
    x = u ++ k → utf8Size t < fuel →
    hideAmountsFrom? (x ++ t) fuel (utf8Size u) (utf8Size x) out st =
      some (out ++ k ++ (st.hide .currency (cutAfter Amount.recogniser x t)).1,
        (st.hide .currency (cutAfter Amount.recogniser x t)).2) := by
  refine cut_induction Amount.honest_recogniser (motive := fun x t ps =>
    ∀ (u k : Text) (fuel : Nat) (out : Text) (st : Stash), x = u ++ k → utf8Size t < fuel →
    hideAmountsFrom? (x ++ t) fuel (utf8Size u) (utf8Size x) out st =
      some (out ++ k ++ (st.hide .currency ps).1, (st.hide .currency ps).2)) ?_ ?_ ?_ x t
  · rintro x u k (_ | fuel) out st rfl hfuel
    · cases hfuel
    · have hat : At (u ++ k) (utf8Size u) k := ⟨u, rfl, rfl⟩
      rw [List.append_nil, hideAmountsFrom?, if_pos (by rw [length_bytes]), hat.from?]
      simp [Stash.hide]
  · rintro x c t hnone ih u k fuel out st rfl hfuel
    rw [utf8Size_cons] at hfuel
    obtain ⟨fuel, rfl⟩ := Nat.exists_eq_add_of_le' (show c.utf8Size ≤ fuel by omega)
    have hrest := ih u (k ++ [c]) fuel out st (List.append_assoc _ _ _) (by omega)
    rw [hideAmountsFrom?_kept hnone]
    simpa [Stash.hide] using hrest
  · rintro x a v ps hps rfl ih u k (_ | fuel) out st rfl hfuel
    · cases hfuel
    have hpos := List.length_pos_iff.2 (Amount.honest_recogniser _ _ _ hps).1
    have hle := length_le_utf8Size (Piece.sources ps)
    rw [utf8Size_append] at hfuel
    have hrest := ih (u ++ k ++ Piece.sources ps) [] fuel (out ++ k ++ (st.hide .currency ps).1)
      (st.hide .currency ps).2 (List.append_nil _).symm (by omega)
    rw [hideAmountsFrom?_found hps, ← List.append_assoc, hrest, Stash.hide_append]
    simp

/-- **Putting the amounts of a text aside by offset** puts aside the amounts of the text. -/
theorem hideAmounts?_eq (s : Text) (st : Stash) : hideAmounts? s st = some (Amount.hide s st) := by
  have hfuel : utf8Size s < s.bytes.length + 1 := by
    rw [length_bytes]
    exact Nat.lt_succ_self _
  exact hideAmountsFrom?_eq [] s [] [] (s.bytes.length + 1) [] st rfl hfuel

end Offsets

end MarkdownPrep
