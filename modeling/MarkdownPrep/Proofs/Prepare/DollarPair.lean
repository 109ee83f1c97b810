import MarkdownPrep.Proofs.Amount.Pair
import MarkdownPrep.Proofs.Prepare.Settled
import MarkdownPrep.Proofs.Verbatim.Unmarked

/-!
# Two dollars around a bare amount

In a text whose only dollars are the two around a bare amount, each of the two is escaped if an
amount is read at it (`Amount.opensAmount`). The first one is read with the bare amount, the second
one with what follows it, so the two are treated alike only where both begin amounts or neither does
(`prepare_pair`). Where neither does they are a span of inline math, or literal if the bare amount is
a single digit.
-/

namespace MarkdownPrep

open Stash

/-! ## Through the passes -/

theorem Delimiter.toDollars_eq_self_of_not_mem {s : Text} (h : '\\' ∉ s) : toDollars s = s := by
  have hkeep : ∀ {first last : Text}, Text.cut (.enclosed ('\\' :: first) last) s = Piece.keep s := by
    intro first last
    refine Text.cut_eq_keep fun y c w hs => if_neg fun hp => h ?_
    rw [hs, ← (List.cons_prefix_cons.1 (List.isPrefixOf_iff_prefix.1 hp)).1]
    exact List.mem_append_right y List.mem_cons_self
  refine toDollars_eq_self ?_ ?_
  · exact (congrArg Piece.founds hkeep).trans (Piece.founds_keep s)
  · exact (congrArg Piece.founds hkeep).trans (Piece.founds_keep s)

/-- No character of the text delimits math, brackets or code, and its line ends are newlines. -/
structure Undelimited (s : Text) : Prop where
  dollar : '$' ∉ s
  backslash : '\\' ∉ s
  backtick : '`' ∉ s
  tilde : '~' ∉ s
  lineEnd : '\r' ∉ s

theorem undelimited_iff (s : Text) :
    Undelimited s ↔ '$' ∉ s ∧ '\\' ∉ s ∧ '`' ∉ s ∧ '~' ∉ s ∧ '\r' ∉ s :=
  ⟨fun h => ⟨h.dollar, h.backslash, h.backtick, h.tilde, h.lineEnd⟩,
    fun ⟨hd, hs, hb, ht, hl⟩ => ⟨hd, hs, hb, ht, hl⟩⟩

instance (s : Text) : Decidable (Undelimited s) := decidable_of_iff' _ (undelimited_iff s)

/-- A bare amount has no private use character, so one that is not around it is unused. -/
theorem unusedPrivate_not_mem_pair {p a q : Text} (ha : Amount.Shape a)
    (hfresh : ∃ c, isPrivateUse c ∧ c ∉ p ++ q) :
    (p ++ '$' :: (a ++ '$' :: q)).unusedPrivate ∉ p ++ (a ++ q) := by
  obtain ⟨c, hc, hnot⟩ := hfresh
  have hdollar : c ≠ '$' := by
    rintro rfl
    exact absurd hc (by decide)
  rw [List.mem_append, not_or] at hnot
  have hunused := unusedPrivate_not_mem (s := p ++ '$' :: (a ++ '$' :: q))
    ⟨c, hc, by simp [hnot, hdollar, ha.not_isPrivateUse hc]⟩
  simp only [List.mem_append, List.mem_cons, not_or] at hunused ⊢
  exact ⟨hunused.1, hunused.2.2.1, hunused.2.2.2.2⟩

/-- Nothing is put aside at the start of a text whose only dollars are around a bare amount. -/
theorem hideVerbatim_pair {p a q : Text} (hp : Undelimited p) (hq : Undelimited q)
    (ha : Amount.Shape a) : hideVerbatim (p ++ '$' :: (a ++ '$' :: q)) =
      (p ++ '$' :: (a ++ '$' :: q), .forText (p ++ '$' :: (a ++ '$' :: q))) := by
  have hbacktick : '`' ∉ a := ha.not_mem (by decide)
  have htilde : '~' ∉ a := ha.not_mem (by decide)
  have hends : Dollar.DollarsAtEnds (Dollar.span a) :=
    Dollar.dollarsAtEnds_of_not_mem (ha.not_mem (by decide))
  have hne : Dollar.span a ≠ Dollar.span [] := by simpa [Dollar.span] using ha.ne_nil
  have hdisplay := Dollar.displayMath_barrier hends hne hp.dollar hq.dollar
  refine hideVerbatim_eq_self (by simpa [Dollar.span] using hdisplay) ?_ ?_
  · simp [hp.backtick, hq.backtick, hbacktick]
  · simp [hp.tilde, hq.tilde, htilde]

namespace Amount.PairReading

variable {p a q : Text} (R : PairReading p a q)

/-- No underscore is put right after an amount that was read at the last dollar. -/
theorem head?_ne_of_last {z : Text} (hz : Text.unmarked z = R.after) (hlast : R.last) :
    z.head? ≠ some '_' := by
  intro hhead
  obtain ⟨u, rfl⟩ := List.head?_eq_some_iff.1 hhead
  have hends := R.ends hlast
  rw [← hz] at hends
  have hname : isNameChar '_' = false := hends
  exact absurd hname (by decide)

section
variable (hp : Undelimited p) (hq : Undelimited q) (ha : Shape a)
include hp hq ha

/-- **Of all passes** the wrapping and the escaping of literal dollars are left over the amounts. -/
theorem settleDollars_eq (hbare : '\n' ∉ a → isBare a) {S : Char}
    (hS : (p ++ '$' :: (a ++ '$' :: q)).unusedPrivate = S) (hS' : isPrivateUse S) :
    settleDollars (p ++ '$' :: (a ++ '$' :: q)) =
      restoreEscaped ⟨S, spellAll S (R.store false)⟩ (Dollar.escapeLiteral S
        (wrapBareMath S (R.before ++ (spell S R.middle ++ R.after)))) := by
  have hdollar : '$' ∉ a := ha.not_mem (by decide)
  have hx := (R.of_not_mem_left hp.dollar).1
  have hz := (R.of_not_mem_right hq.dollar).2
  have hm := R.dollarsAtEnds_middle hS' hdollar
  have hspan : ∀ body, spell S R.middle = Dollar.span body → body = a := fun body h =>
    (R.eq_of_spell_middle_eq_span hS' hdollar h).2.2
  have hverbatim : hideVerbatim (p ++ '$' :: (a ++ '$' :: q)) =
      (p ++ '$' :: (a ++ '$' :: q), ⟨S, []⟩) := hS ▸ hideVerbatim_pair hp hq ha
  have hdollars : Delimiter.toDollars (R.before ++ (spell S R.middle ++ R.after)) =
      R.before ++ (spell S R.middle ++ R.after) := by
    refine Delimiter.toDollars_eq_self_of_not_mem ?_
    rw [List.mem_append, List.mem_append, not_or, not_or]
    exact ⟨(R.of_not_mem_left hp.backslash).1,
      R.backslash_not_mem_spell_middle hS' (ha.not_mem (by decide)),
      (R.of_not_mem_right hq.backslash).2⟩
  have hblocks := Dollar.displayMath_barrier hm (fun h => ha.ne_nil (hspan [] h).symm) hx hz
  have hspans := Dollar.inlineMath_barrier hm hx hz fun body h hline => by
    obtain rfl := hspan body h
    rw [ha.trim]
    exact hbare hline
  rw [settleDollars, hverbatim]
  dsimp only [Stash.emptied]
  rw [R.hide_eq]
  dsimp only
  rw [hdollars, hideMathBlocks, hblocks, hide_keep]
  dsimp only
  rw [hideInlineMath, hspans, hide_keep]
  rfl

/-- **The outcome of all passes**: around the middle nothing but dollars and backslashes came in. -/
theorem exists_settleDollars_eq (hbare : '\n' ∉ a → isBare a)
    (hfresh : ∃ c, isPrivateUse c ∧ c ∉ p ++ q) :
    ∃ x z literal, settleDollars (p ++ '$' :: (a ++ '$' :: q)) =
        x ++ (R.sign ++ (dollar (R.first || literal) ++
          (a ++ (dollar (R.last || literal) ++ (R.lastFigure ++ z))))) ∧
      Text.unmarked x = R.before ∧ Text.unmarked z = R.after ∧ x.getLast? ≠ some '\\' ∧
      (literal = true → R.first = false ∧ R.last = false ∧ Dollar.isLoneDigit a) := by
  obtain ⟨S, hSdef⟩ : ∃ S, (p ++ '$' :: (a ++ '$' :: q)).unusedPrivate = S := ⟨_, rfl⟩
  have hS : isPrivateUse S := hSdef ▸ isPrivateUse_unusedPrivate _
  have hdollar : '$' ∉ a := ha.not_mem (by decide)
  have hunused : S ∉ p ++ (a ++ q) := hSdef ▸ unusedPrivate_not_mem_pair ha hfresh
  obtain ⟨x, m, z, hout, hx, hz, hend, hm⟩ := Dollar.exists_settled_barrier (R.barrier_middle hS ha)
    (R.dollarsAtEnds_middle hS hdollar) hS (R.of_not_mem_left hp.dollar).1
    (R.of_not_mem_left hp.backslash).1 (R.of_not_mem_right hq.dollar).2
    (R.of_not_mem_right hq.backslash).2
  rw [R.settleDollars_eq hp hq ha hbare hSdef hS, hout]
  rcases hm with rfl | ⟨d, hd, hspan, rfl⟩
  · refine ⟨x, z, false, ?_, hx, hz, hend, nofun⟩
    have hfree : ∀ c, c = '$' ∨ c = S → c ∉ p ++ (a ++ q) := by
      rintro c (rfl | rfl)
      · simp [hp.dollar, hq.dollar, hdollar]
      · exact hunused
    simp only [List.mem_append, not_or] at hunused
    have hSx : S ∉ x := fun hm => (R.of_not_mem_left hunused.1).1 <|
      hx ▸ Text.mem_unmarked_of_isPrivateUse hm hS
    have hSz : S ∉ z := fun hm => (R.of_not_mem_right hunused.2.2).2 <|
      hz ▸ Text.mem_unmarked_of_isPrivateUse hm hS
    rw [Bool.or_false, Bool.or_false]
    exact R.restoreEscaped_middle hS hfree (ha.not_mem (by decide)) hSx hSz (R.head?_ne_of_last hz)
  · obtain ⟨hfirst, hlast, rfl⟩ := R.eq_of_spell_middle_eq_span hS hdollar hspan
    refine ⟨x, z, true, ?_, hx, hz, hend, fun _ => ⟨hfirst, hlast, hd⟩⟩
    rw [R.restoreEscaped_of_not hfirst hlast]
    simp [R.nil_of_first hfirst, R.nil_of_last hlast, Dollar.escaped_span, dollar]

end

end Amount.PairReading

/-! ## The prepared text -/

theorem Text.unifyLineEnds_pair {p a q : Text} (hp : Undelimited p) (hq : Undelimited q) :
    unifyLineEnds (p ++ '$' :: (a ++ '$' :: q)) = p ++ '$' :: (unifyLineEnds a ++ '$' :: q) := by
  have hdollar : ∀ s, unifyLineEnds ('$' :: s) = '$' :: unifyLineEnds s := fun s => by
    simp [unifyLineEnds]
  rw [unifyLineEnds_append (by simp), hdollar, unifyLineEnds_append (by simp), hdollar,
    unifyLineEnds_eq_self hp.lineEnd, unifyLineEnds_eq_self hq.lineEnd]

theorem Text.trimEnd_append_dollar (s v : Text) (e : Bool) :
    trimEnd (s ++ (dollar e ++ v)) = s ++ (dollar e ++ trimEnd v) := by
  have hdollar : Visible ('$' :: v) := ⟨'$', List.mem_cons_self, by decide⟩
  have hcons : trimEnd ('$' :: v) = '$' :: trimEnd v := trimEnd_cons (by decide) v
  cases e with
  | false => exact (trimEnd_append_of_visible s hdollar).trans (congrArg (s ++ ·) hcons)
  | true =>
    have hsplit : s ++ (dollar true ++ v) = s ++ ['\\'] ++ '$' :: v := by simp [dollar]
    rw [hsplit, trimEnd_append_of_visible _ hdollar, hcons]
    simp [dollar]

/-- **What becomes of two dollars around a bare amount.** Each of them is escaped if it begins an
amount, and both are if they are literal, which they are only where neither begins an amount and the
bare amount is a single digit. So both are escaped or both are not if and only if both begin amounts
or neither does. -/
theorem prepare_pair {p a q : Text} (hp : Undelimited p) (hq : Undelimited q)
    (ha : Amount.isBare a) (hfresh : ∃ c, isPrivateUse c ∧ c ∉ p ++ q) :
    let first := Amount.opensAmount (Text.unifyLineEnds a ++ '$' :: q)
    let last := Amount.opensAmount q
    ∃ (u v : Text) (literal : Bool), prepare (p ++ '$' :: (a ++ '$' :: q)) =
        u ++ (dollar (first || literal) ++ (Text.unifyLineEnds a ++
          (dollar (last || literal) ++ (Text.trimEnd v ++ ['\n'])))) ∧
      Text.unmarked u = p ∧ Text.unmarked v = q ∧ u.getLast? ≠ some '\\' ∧
      (literal = true → first = false ∧ last = false ∧ Dollar.isLoneDigit (Text.unifyLineEnds a)) ∧
      ((first || literal) = (last || literal) ↔ first = last) := by
  have hshape := Amount.shape_of_isBare ha
  obtain ⟨R⟩ :=
    Amount.exists_pairReading hp.dollar hp.backslash hshape.unifyLineEnds hq.dollar
  obtain ⟨x, z, literal, hout, hx, hz, hend, hliteral⟩ := R.exists_settleDollars_eq hp hq
    hshape.unifyLineEnds (fun hline => by rwa [hshape.unifyLineEnds_eq_self hline]) hfresh
  have hsign : ∀ c ∈ R.sign, c ≠ '\\' := fun c hc => by
    rw [R.sign_eq c hc]
    decide
  refine ⟨x ++ R.sign, R.lastFigure ++ z, literal, ?_, ?_, ?_, ?_, hliteral, ?_⟩
  · have hsplit : x ++ (R.sign ++ (dollar (R.first || literal) ++ (Text.unifyLineEnds a ++
        (dollar (R.last || literal) ++ (R.lastFigure ++ z))))) =
        (x ++ R.sign ++ (dollar (R.first || literal) ++ Text.unifyLineEnds a)) ++
          (dollar (R.last || literal) ++ (R.lastFigure ++ z)) := by simp
    rw [prepare, if_neg (by simp), Text.unifyLineEnds_pair hp hq, hout, hsplit,
      Text.trimEnd_append_dollar]
    simp
  · have hplain : Text.unmarked R.sign = R.sign := Text.unmarked_eq_self
      (R.of_not_mem_left hp.dollar).2 (R.of_not_mem_left hp.backslash).2
    rw [Text.unmarked_append, hx, hplain, ← R.before_eq]
  · have hplain : Text.unmarked R.lastFigure = R.lastFigure := Text.unmarked_eq_self
      (R.of_not_mem_right hq.dollar).1 (R.of_not_mem_right hq.backslash).1
    rw [Text.unmarked_append, hz, hplain, ← R.after_eq]
  · rw [List.getLast?_append]
    cases hlast : R.sign.getLast? with
    | none => exact hend
    | some c => exact fun h => hsign c (List.mem_of_getLast? hlast) (Option.some.inj h)
  · cases literal with
    | false => simp only [Bool.or_false]
    | true =>
      obtain ⟨hfirst, hlast, -⟩ := hliteral rfl
      exact ⟨fun _ => hfirst.trans hlast.symm, fun _ => by rw [Bool.or_true, Bool.or_true]⟩

/-- Two amounts, of which the first one ends before the dollar of the second one. -/
theorem prepare_pair_of_amounts :
    (Undelimited "from ".toList ∧ Undelimited "7k on".toList ∧ Amount.isBare "5".toList ∧
      ∃ c, isPrivateUse c ∧ c ∉ "from ".toList ++ "7k on".toList) ∧
    let first := Amount.opensAmount (Text.unifyLineEnds "5".toList ++ '$' :: "7k on".toList)
    let last := Amount.opensAmount "7k on".toList
    ∃ (u v : Text) (literal : Bool),
      prepare ("from ".toList ++ '$' :: ("5".toList ++ '$' :: "7k on".toList)) =
        u ++ (dollar (first || literal) ++ (Text.unifyLineEnds "5".toList ++
          (dollar (last || literal) ++ (Text.trimEnd v ++ ['\n'])))) ∧
      Text.unmarked u = "from ".toList ∧ Text.unmarked v = "7k on".toList ∧
      u.getLast? ≠ some '\\' ∧
      (literal = true → first = false ∧ last = false ∧
        Dollar.isLoneDigit (Text.unifyLineEnds "5".toList)) ∧
      ((first || literal) = (last || literal) ↔ first = last) :=
  ⟨⟨by decide, by decide, by decide, '\uE000', by decide, by decide⟩,
    prepare_pair (by decide) (by decide) (by decide) ⟨'\uE000', by decide, by decide⟩⟩

/-- The first dollar alone is escaped where it begins an amount and the last one does not. -/
theorem prepare_pair_unlike_of_digit :
    Undelimited [] ∧ Amount.isBare "5".toList ∧
      prepare ([] ++ '$' :: ("5".toList ++ '$' :: [])) =
        dollar true ++ ("5".toList ++ (dollar false ++ ['\n'])) ∧
      ∀ e, prepare ([] ++ '$' :: ("5".toList ++ '$' :: [])) ≠
        dollar e ++ ("5".toList ++ (dollar e ++ ['\n'])) := by
  decide +kernel

end MarkdownPrep
