import Mathlib.Data.List.TakeWhile
import MarkdownPrep.Proofs.Stash.Blind
import MarkdownPrep.Proofs.Wrap.Place

/-!
# Bare math around tokens

An expression that may be wrapped does not reach into a token, a `\frac` with tokens in its groups
aside: what the reader of a candidate says does not depend on which token stands there
(`candidate_congr`). An expression with a token in it is not wrapped. So bare math is found in every
dress alike (`blind_wrap`).
-/

namespace MarkdownPrep.Wrap

open Text

theorem findSome?_congr {α β : Type} {l : List α} {f g : α → Option β} (h : ∀ a ∈ l, f a = g a) :
    l.findSome? f = l.findSome? g := by
  induction l with
  | nil => rfl
  | cons a l ih =>
    rw [List.forall_mem_cons] at h
    rw [List.findSome?_cons, List.findSome?_cons, h.1, ih h.2]

/-! ## Expressions before a token -/

theorem not_isFree_of_isPrivateUse {c : Char} (hc : isPrivateUse c) : isFree c = false := by
  simp [isFree, hc]

theorem step_eq_none {c : Char} (hc : isPrivateUse c) (st : LeftState) : st.step c = none := by
  have hne : ∀ d, isPrivateUse d = false → c ≠ d := by
    rintro d hd rfl
    rw [hc] at hd
    cases hd
  have hsigns : ∀ d ∈ ['^', '_', '{', '}', '+', '-', '*', '/'], c ≠ d := by
    have hall : ['^', '_', '{', '}', '+', '-', '*', '/'].all (!isPrivateUse ·) := by decide
    exact fun d hd => hne d (by simpa using List.all_eq_true.1 hall d hd)
  simp only [List.forall_mem_cons] at hsigns
  cases st <;> simp [LeftState.step, not_isAlphanum_of_isPrivateUse hc,
    not_isBlank_of_isPrivateUse hc, hsigns]

section
variable {z z' : Text} (hz : Stops z)
include hz

theorem afterEquals?_append (st : LeftState) (s : Text) :
    afterEquals? st (s ++ z) = (afterEquals? st s).map (· ++ z) := by
  induction s generalizing st with
  | nil =>
    cases z with
    | nil => rfl
    | cons c z =>
      show afterEquals? st (c :: z) = none
      rw [afterEquals?, step_eq_none (hz c rfl)]
      exact if_neg (by simp [hz.head_ne (b := '=') (by decide)])
  | cons c s ih =>
    rw [List.cons_append, afterEquals?, afterEquals?]
    cases st.step c with
    | some st' => exact ih st'
    | none =>
      dsimp only
      split <;> rfl

theorem afterWord?_append {word : Text} (hw : ∀ c ∈ word, isPrivateUse c = false) (s : Text) :
    afterWord? word (s ++ z) = (afterWord? word s).map (· ++ z) := by
  induction word generalizing s with
  | nil => rfl
  | cons c word ih =>
    rw [List.forall_mem_cons] at hw
    have hcons : ∀ (d : Char) (s : Text), afterWord? (c :: word) (d :: s) =
        if c = d then afterWord? word s else none := by
      intro d s
      unfold afterWord?
      by_cases hcd : c = d <;> simp [hcd]
    cases s with
    | cons d s =>
      rw [List.cons_append, hcons, hcons]
      split
      · exact ih hw.2 s
      · rfl
    | nil =>
      cases z with
      | nil => rfl
      | cons d z => exact (hcons d z).trans (if_neg (hz.head_ne hw.1).symm)

variable (hne : z ≠ []) (hz' : Stops z') (hne' : z' ≠ [])
include hne hz' hne'

/-- A free stretch before a token, seen as far as the limit. -/
theorem reach_congr {n m : Nat} {s : Text}
    (h : min n s.length = min m s.length) :
    reach n (s ++ z) = reach m (s ++ z') := by
  have hnone : ∀ {z : Text}, Stops z → z ≠ [] → ∀ limit, reach limit z = none := by
    intro z hz hne limit
    obtain ⟨c, z, rfl⟩ := List.exists_cons_of_ne_nil hne
    cases limit <;> simp [reach, not_isFree_of_isPrivateUse (hz c rfl),
      not_isBlank_of_isPrivateUse (hz c rfl)]
  induction s generalizing n m with
  | nil => exact (hnone hz hne n).trans (hnone hz' hne' m).symm
  | cons c s ih =>
    rw [List.length_cons] at h
    unfold reach
    refine congrArg (Option.or · _) ?_
    cases n with
    | zero =>
      cases m with
      | zero => rfl
      | succ m => omega
    | succ n =>
      cases m with
      | zero => omega
      | succ m =>
        have heq : reach n (s ++ z) = reach m (s ++ z') := ih (by omega)
        show (if isFree c then (reach n (s ++ z)).map (· + 1) else none) = _
        rw [heq]
        rfl

theorem rightSide?_congr (s : Text) : rightSide? (s ++ z) = rightSide? (s ++ z') := by
  have hblank : ∀ c, isPrivateUse c → isBlank c = false := fun c => not_isBlank_of_isPrivateUse
  rw [rightSide?, rightSide?, hz.takeWhile hblank, hz'.takeWhile hblank]
  refine findSome?_congr fun skipped hm => ?_
  have hle : skipped ≤ s.length := by
    rw [List.mem_reverse, List.mem_range] at hm
    have := (List.takeWhile_prefix (l := s) isBlank).length_le
    omega
  rw [List.drop_append_of_le_length hle, List.drop_append_of_le_length hle,
    reach_congr hz hne hz' hne' (m := (s ++ z').length)]
  simp only [List.length_append, List.length_drop]
  omega

theorem equation?_congr (s : Text) : equation? (s ++ z) = equation? (s ++ z') := by
  rw [equation?, equation?, afterEquals?_append hz, afterEquals?_append hz']
  cases h : afterEquals? .start s with
  | none => rfl
  | some right =>
    have hlen := length_lt_of_afterEquals? h
    simp only [Option.map_some, Option.bind_eq_bind, Option.bind_some,
      rightSide?_congr hz hne hz' hne' right, List.length_append]
    rw [Nat.add_sub_add_right, Nat.add_sub_add_right]

theorem function?_congr (s : Text) : function? (s ++ z) = function? (s ++ z') := by
  have hnames : ∀ name ∈ functionNames, ∀ c ∈ name, isPrivateUse c = false := by
    have hall : ∀ name ∈ functionNames, name.all (!isPrivateUse ·) := by decide
    simpa using hall
  have hfind : ∀ {z : Text}, Stops z → ∀ s, (functionNames.findSome? fun name =>
      (afterWord? name (s ++ z)).filter fun t => !startsWithWord t) =
        (functionNames.findSome? fun name =>
          (afterWord? name s).filter fun t => !startsWithWord t).map (· ++ z) := by
    intro z hz s
    rw [List.map_findSome?]
    refine findSome?_congr fun name hname => ?_
    rw [Function.comp_apply, afterWord?_append hz (hnames name hname)]
    cases afterWord? name s with
    | none => rfl
    | some t =>
      rw [Option.map_some, Option.filter_some, Option.filter_some, hz.startsWithWord]
      split <;> rfl
  have hword : ∀ c ∈ ['\\'], isPrivateUse c = false := List.forall_mem_singleton.2 (by decide)
  rw [function?, function?, afterWord?_append hz hword, afterWord?_append hz' hword]
  cases afterWord? ['\\'] s with
  | none => rfl
  | some s₁ =>
    simp only [Option.map_some, Option.bind_eq_bind, Option.bind_some, hfind hz, hfind hz']
    cases functionNames.findSome? fun name =>
        (afterWord? name s₁).filter fun t => !startsWithWord t with
    | none => rfl
    | some s₂ =>
      simp only [Option.map_some, Option.bind_some, List.length_append,
        reach_congr hz hne hz' hne' (s := s₂) (n := 50) (m := 50) rfl]
      rw [Nat.add_sub_add_right, Nat.add_sub_add_right]

end

theorem state_step_eq_none {c : Char} (hc : isPrivateUse c) (st : Formula.State) :
    st.step c = none := by
  have hne : ∀ d ∈ ['(', ')', '+', '-'], c ≠ d := by
    have hall : ['(', ')', '+', '-'].all (!isPrivateUse ·) := by decide
    rintro d hd rfl
    have := List.all_eq_true.1 hall c hd
    simp [hc] at this
  simp only [List.forall_mem_cons] at hne
  cases st <;> simp [Formula.State.step, not_isUpper_of_isPrivateUse hc,
    not_isLower_of_isPrivateUse hc, not_isDecimalDigit_of_isPrivateUse hc, hne]

/-- No formula holds a private use character. -/
theorem acceptsFrom_append_cons {c : Char} (hc : isPrivateUse c) (st : Formula.State) (s t : Text) :
    Formula.acceptsFrom st (s ++ c :: t) = false := by
  induction s generalizing st with
  | nil => rw [List.nil_append, Formula.acceptsFrom, state_step_eq_none hc]
  | cons d s ih =>
    rw [List.cons_append, Formula.acceptsFrom]
    cases st.step d with
    | none => rfl
    | some st' => exact ih st'

/-- A formula ends before white space, so before a token, or it does not end. -/
theorem formula?_append {z : Text} (hz : Stops z) (hne : z ≠ []) (s : Text) :
    formula? (s ++ z) = if s.any isBlank then formula? s else none := by
  obtain ⟨c, z, rfl⟩ := List.exists_cons_of_ne_nil hne
  have hc : isPrivateUse c := hz c rfl
  rw [formula?, formula?]
  by_cases hany : s.any isBlank
  · obtain ⟨d, hd, hb⟩ := List.any_eq_true.1 hany
    have hword : (s ++ c :: z).takeWhile (!isBlank ·) = s.takeWhile (!isBlank ·) := by
      rw [List.takeWhile_append, if_neg]
      intro hlen
      rw [← (List.takeWhile_prefix (!isBlank ·)).eq_of_length hlen] at hd
      simpa [hb] using List.mem_takeWhile_imp hd
    rw [if_pos hany, hword]
  · have hall : ∀ d ∈ s, !isBlank d := by simpa using hany
    have hword : (s ++ c :: z).takeWhile (!isBlank ·) = s ++ c :: z.takeWhile (!isBlank ·) := by
      rw [List.takeWhile_append_of_pos hall, List.takeWhile_cons_of_pos]
      simp [not_isBlank_of_isPrivateUse hc]
    rw [if_neg hany, hword, isFormula, acceptsFrom_append_cons hc]
    rfl

/-- **What an expression is does not depend on the token before which it ends.** -/
theorem candidate_congr {candidate : Text → Option Nat}
    (h : candidate ∈ [equation?, function?, formula?]) {z z' : Text} (hz : Stops z) (hne : z ≠ [])
    (hz' : Stops z') (hne' : z' ≠ []) (s : Text) : candidate (s ++ z) = candidate (s ++ z') := by
  simp only [List.mem_cons, List.not_mem_nil, or_false] at h
  rcases h with rfl | rfl | rfl
  · exact equation?_congr hz hne hz' hne' s
  · exact function?_congr hz hne hz' hne' s
  · rw [formula?_append hz hne, formula?_append hz' hne']

/-- It ends before the token. -/
theorem lt_length_of_candidate {candidate : Text → Option Nat}
    (h : candidate ∈ [equation?, function?, formula?]) {z : Text} (hz : Stops z) (hne : z ≠ [])
    {s : Text} {n : Nat} (hn : candidate (s ++ z) = some n) : n < s.length := by
  have hmem : candidate ∈ candidates := by
    simp only [candidates, List.mem_cons, List.not_mem_nil, or_false] at h ⊢
    tauto
  -- whatever follows the token, the expression ends at a break
  have hbreak : ∀ t, atBreak ((s ++ '\uE000' :: t).drop n) := fun t => by
    refine atBreak_of_candidate hmem ?_
    rw [← hn]
    exact candidate_congr h (by rintro c ⟨⟩; decide) (List.cons_ne_nil _ _) hz hne s
  by_contra hlt
  have hlong := hbreak (List.replicate n 'a')
  rw [List.drop_append, List.drop_eq_nil_of_le (by omega), List.nil_append] at hlong
  cases hk : n - s.length with
  | zero =>
    rw [hk] at hlong
    exact absurd hlong (by simp [atBreak]; decide)
  | succ k =>
    have hmore : n - k = (n - k - 1) + 1 := by omega
    rw [hk, List.drop_succ_cons, List.drop_replicate, hmore, List.replicate_succ] at hlong
    exact absurd hlong (by simp [atBreak]; decide)

end MarkdownPrep.Wrap

namespace MarkdownPrep.Stash

open Wrap

/-! ## Candidates in a layer -/

/-- A reader leaves the same atoms in every dress. -/
def LeavesAlike (f : Text → Option Text) : Prop :=
  ∀ as, (∀ d : Dress, d.Fits as → f (d.spell as) = none) ∨
    ∃ bs cs, as = bs ++ cs ∧ ∀ d : Dress, d.Fits as → f (d.spell as) = some (d.spell cs)

/-- A candidate is read from the same atoms in every dress. -/
def ReadsAlike (candidate : Text → Option Nat) : Prop :=
  ∀ as, (∀ d : Dress, d.Fits as → candidate (d.spell as) = none) ∨
    ∃ bs cs, as = bs ++ cs ∧ ∀ d : Dress, d.Fits as → ∃ n, candidate (d.spell as) = some n ∧
      (d.spell as).take n = d.spell bs ∧ (d.spell as).drop n = d.spell cs

theorem LeavesAlike.bind {f g : Text → Option Text} (hf : LeavesAlike f) (hg : LeavesAlike g) :
    LeavesAlike fun s => (f s).bind g := by
  intro as
  rcases hf as with hnone | ⟨bs, cs, rfl, hsome⟩
  · refine .inl fun d hd => ?_
    show (f (d.spell as)).bind g = none
    rw [hnone d hd, Option.bind_none]
  have hbind : ∀ d : Dress, d.Fits (bs ++ cs) →
      (f (d.spell (bs ++ cs))).bind g = g (d.spell cs) := fun d hd => by
    rw [hsome d hd, Option.bind_some]
  rcases hg cs with hnone | ⟨ds, es, rfl, hsome'⟩
  · exact .inl fun d hd => (hbind d hd).trans (hnone d hd.right)
  · exact .inr ⟨bs ++ ds, es, (List.append_assoc ..).symm, fun d hd =>
      (hbind d hd).trans (hsome' d hd.right)⟩

theorem leavesAlike_afterWord? {word : Text} (hw : ∀ c ∈ word, isPrivateUse c = false) :
    LeavesAlike (afterWord? word) := by
  intro as
  have hfront : ∀ d : Dress, d.Fits as → (word.isPrefixOf (d.spell as) ↔ plain word <+: as) := by
    intro d hd
    rw [List.isPrefixOf_iff_prefix, Dress.prefix_spell_iff]
    intro hm
    exact absurd hd.1 (by rw [hw _ hm]; decide)
  by_cases hp : plain word <+: as
  · obtain ⟨cs, rfl⟩ := hp
    refine .inr ⟨plain word, cs, rfl, fun d hd => ?_⟩
    rw [afterWord?, if_pos ((hfront d hd).2 (List.prefix_append _ _)), Dress.spell_append,
      Dress.spell_plain, List.drop_left]
  · exact .inl fun d hd => by rw [afterWord?, if_neg (mt (hfront d hd).1 hp)]

theorem afterGroup?_cons (s : Text) : afterGroup? ('{' :: s) =
    if s.head? = some '}' then none else (s.dropWhile (· ≠ '}')).tail? := by
  cases s with
  | nil => rfl
  | cons c s =>
    rw [afterGroup?, List.head?_cons]
    by_cases hc : c = '}'
    · rw [if_pos hc, if_pos (congrArg some hc)]
    · rw [if_neg hc, if_neg (mt Option.some.inj hc), List.dropWhile_cons_of_pos (by simpa using hc)]
      cases s.dropWhile (· ≠ '}') <;> rfl

theorem leavesAlike_afterGroup? : LeavesAlike afterGroup? := by
  intro as
  have hplain : ∀ c, isPrivateUse c = false → isTokenChar c = false → Plain c := by
    rintro c hc hc' S hS (rfl | h)
    · rw [hc] at hS
      cases hS
    · rw [hc'] at h
      cases h
  have hopen : Plain '{' := hplain _ (by decide) (by decide)
  have hshut : Plain '}' := hplain _ (by decide) (by decide)
  by_cases ha : as.head? = some (.char '{')
  · obtain ⟨as, rfl⟩ := List.head?_eq_some_iff.1 ha
    obtain ⟨bs, cs, rfl, hcs, hd⟩ := exists_takeWhile hshut as
    have hread : ∀ d : Dress, d.Fits (.char '{' :: (bs ++ cs)) →
        afterGroup? (d.spell (.char '{' :: (bs ++ cs))) =
          if (bs ++ cs).head? = some (.char '}') then none else (d.spell cs).tail? := by
      intro d hfits
      rw [Dress.spell_char_cons, afterGroup?_cons, (hd d hfits.1).2, Dress.head?_spell]
      simp only [Dress.last_eq_some_iff (hshut.ne hfits.1)]
    by_cases hhead : (bs ++ cs).head? = some (.char '}')
    · exact .inl fun d hfits => by rw [hread d hfits, if_pos hhead]
    cases cs with
    | nil => exact .inl fun d hfits => by rw [hread d hfits, if_neg hhead]; rfl
    | cons a cs =>
      obtain rfl := hcs a rfl
      refine .inr ⟨.char '{' :: (bs ++ [.char '}']), cs, by simp, fun d hfits => ?_⟩
      rw [hread d hfits, if_neg hhead]
      rfl
  · refine .inl fun d hfits => ?_
    have hhead : (d.spell as).head? ≠ some '{' := by
      rwa [Dress.head?_spell, ne_eq, Dress.last_eq_some_iff (hopen.ne hfits.1)]
    unfold afterGroup?
    split
    · next heq => exact absurd (by rw [heq]; rfl) hhead
    · rfl

/-- An expression may stand beside an atom that is white space, and where there is none. -/
def breaks (o : Option Atom) : Bool :=
  o.all fun
    | .char c => isBlank c
    | .token _ _ => false

section
variable {d : Dress} (hS : isPrivateUse d.sentinel)
include hS

/-- A break is one in every dress. -/
theorem Dress.all_isBlank_last (o : Option Atom) : (d.last o).all isBlank = breaks o := by
  rcases o with _ | ⟨c⟩ | ⟨kind, i⟩
  · rfl
  · rfl
  · exact not_isBlank_of_isPrivateUse hS

theorem Dress.atBreak_spell (as : Layer) : atBreak (d.spell as) = breaks as.head? := by
  rw [← d.all_isBlank_last hS, ← Dress.head?_spell]
  cases d.spell as <;> rfl

end

/-- A reader that leaves the same atoms gives the same candidates. -/
theorem LeavesAlike.readsAlike {f : Text → Option Text} (hf : LeavesAlike f) :
    ReadsAlike fun s => (f s).bind fun t =>
      if atBreak t then some (s.length - t.length) else none := by
  intro as
  dsimp only
  rcases hf as with hnone | ⟨bs, cs, rfl, hsome⟩
  · exact .inl fun d hd => by rw [hnone d hd, Option.bind_none]
  have hread : ∀ d : Dress, d.Fits (bs ++ cs) → ((f (d.spell (bs ++ cs))).bind fun t =>
      if atBreak t then some ((d.spell (bs ++ cs)).length - t.length) else none) =
        if breaks cs.head? then some (d.spell bs).length else none := fun d hd => by
    rw [hsome d hd, Option.bind_some, Dress.atBreak_spell hd.1, Dress.spell_append,
      List.length_append, Nat.add_sub_cancel]
  by_cases hbreak : breaks cs.head?
  · refine .inr ⟨bs, cs, rfl, fun d hd => ⟨(d.spell bs).length, ?_, ?_, ?_⟩⟩
    · rw [hread d hd, if_pos hbreak]
    · rw [Dress.spell_append, List.take_left]
    · rw [Dress.spell_append, List.drop_left]
  · exact .inl fun d hd => by rw [hread d hd, if_neg hbreak]

theorem readsAlike_fraction? : ReadsAlike fraction? := by
  have hread : (fun s => (((afterWord? "\\frac".toList s).bind afterGroup?).bind afterGroup?).bind
      fun t => if atBreak t then some (s.length - t.length) else none) = fraction? := by
    funext s
    rw [fraction?]
    simp only [Option.bind_eq_bind, Option.bind_assoc]
  have hword : ∀ c ∈ "\\frac".toList, isPrivateUse c = false := by
    have hall : "\\frac".toList.all (!isPrivateUse ·) := by decide
    simpa using hall
  rw [← hread]
  exact (((leavesAlike_afterWord? hword).bind leavesAlike_afterGroup?).bind
    leavesAlike_afterGroup?).readsAlike

/-- Expressions without tokens are read alike. -/
theorem readsAlike_of_mem {candidate : Text → Option Nat}
    (h : candidate ∈ [equation?, function?, formula?]) : ReadsAlike candidate := by
  intro as
  obtain ⟨u, rest, rfl, hrest⟩ := exists_eq_plain_append as
  -- the dress matters neither for what is read nor for where it ends
  obtain ⟨r, hr⟩ : ∃ r : Option Nat, ∀ d : Dress, d.Fits (plain u ++ rest) →
      candidate (u ++ d.spell rest) = r ∧ ∀ n ∈ r, n ≤ u.length ∨ rest = [] := by
    rcases hrest with rfl | ⟨kind, i, cs, rfl⟩
    · exact ⟨candidate u, fun d _ => ⟨by rw [Dress.spell_nil, List.append_nil], fun _ _ => .inr rfl⟩⟩
    · refine ⟨candidate (u ++ ['\uE000']), fun d hd => ?_⟩
      have hstops : Text.Stops (d.spell (.token kind i :: cs)) :=
        Dress.stops_spell hd.1 (.inr ⟨kind, i, cs, rfl⟩)
      have hone : Text.Stops ['\uE000'] := by
        rintro c ⟨⟩
        decide
      refine ⟨candidate_congr h hstops (by simp [Dress.spell_token_cons, token]) hone (by simp) u, ?_⟩
      exact fun n hn => .inl (lt_length_of_candidate h hone (by simp) hn).le
  cases r with
  | none =>
    exact .inl fun d hd => by rw [Dress.spell_append, Dress.spell_plain]; exact (hr d hd).1
  | some n =>
    refine .inr ⟨plain (u.take n), plain (u.drop n) ++ rest, ?_, fun d hd => ⟨n, ?_, ?_, ?_⟩⟩
    · rw [← List.append_assoc, ← plain_append, List.take_append_drop]
    · rw [Dress.spell_append, Dress.spell_plain]
      exact (hr d hd).1
    · rw [Dress.spell_append, Dress.spell_plain, Dress.spell_plain]
      rcases (hr d hd).2 n rfl with hle | rfl
      · exact List.take_append_of_le_length hle
      · rw [Dress.spell_nil, List.append_nil]
    · rw [Dress.spell_append, Dress.spell_append, Dress.spell_plain, Dress.spell_plain]
      rcases (hr d hd).2 n rfl with hle | rfl
      · exact List.drop_append_of_le_length hle
      · rw [Dress.spell_nil, List.append_nil, List.append_nil]

theorem readsAlike_of_mem_candidates {candidate : Text → Option Nat} (h : candidate ∈ candidates) :
    ReadsAlike candidate := by
  simp only [candidates, List.mem_cons, List.not_mem_nil, or_false] at h
  rcases h with rfl | rfl | rfl | rfl
  · exact readsAlike_of_mem (by simp)
  · exact readsAlike_fraction?
  · exact readsAlike_of_mem (by simp)
  · exact readsAlike_of_mem (by simp)

/-- An atom beside which an expression may stand is the same in every dress. -/
theorem exists_of_breaks {o : Option Atom} (h : breaks o) :
    ∃ e : Option Char, o = e.map .char ∧ ∀ d : Dress, d.last o = e := by
  rcases o with _ | ⟨c⟩ | ⟨kind, i⟩
  · exact ⟨none, rfl, fun _ => rfl⟩
  · exact ⟨some c, rfl, fun _ => rfl⟩
  · cases h

/-! ## Wrapping an expression -/

/-- The pieces of an expression with what stands near it. -/
def expressionPieces (S : Char) (near expr : Text) : List Piece :=
  if qualifies S near (Text.trim expr) then
    .found (Text.trimEnd expr) :: Piece.keep (expr.drop (Text.trimEnd expr).length)
  else Piece.keep expr

section
variable {S : Char} {near expr : Text}

theorem sources_expressionPieces : Piece.sources (expressionPieces S near expr) = expr := by
  unfold expressionPieces
  split
  · rw [Piece.sources_cons, Piece.source, Piece.sources_keep]
    exact List.prefix_iff_eq_append.1 (Text.trimEnd_prefix expr)
  · exact Piece.sources_keep expr

/-- A sentinel that does not stand near an expression does not keep it from being wrapped. -/
theorem expressionPieces_of_not_mem (h : S ∉ near) :
    expressionPieces S near expr = expressionPieces '$' near expr := by
  have hno : near.contains S = false := by simpa using h
  unfold expressionPieces qualifies
  rw [hno]
  cases near.contains '$' <;> rfl

/-- One that does keeps it. -/
theorem expressionPieces_of_mem (h : S ∈ near) : expressionPieces S near expr = Piece.keep expr := by
  have hyes : near.contains S = true := by simpa using h
  unfold expressionPieces qualifies
  rw [hyes]
  simp

end

section
variable {candidate : Text → Option Nat} (h : candidate ∈ candidates)
include h

/-- What a candidate leaves begins with a break. -/
theorem breaks_of_candidate {d : Dress} (hS : isPrivateUse d.sentinel) {s : Text} {n : Nat}
    (hn : candidate s = some n) {cs : Layer} (hdrop : s.drop n = d.spell cs) :
    breaks cs.head? := by
  rw [← Dress.atBreak_spell hS, ← hdrop]
  exact atBreak_of_candidate h hn

omit h in
theorem recogniser_of_breaks {d : Dress} (hS : isPrivateUse d.sentinel) {b : Option Atom}
    (hb : breaks b) (s : Text) : Wrap.recogniser candidate d.sentinel (d.last b) s =
      (candidate s).map fun n => expressionPieces d.sentinel
        ((d.last b).toList ++ s.take n ++ (s.drop n).take 1) (s.take n) := by
  rw [← Dress.all_isBlank_last hS] at hb
  rw [Wrap.recogniser, if_pos hb]
  rfl

omit h in
/-- An expression without tokens has the same pieces in every dress. -/
theorem exists_expression_cells {b : Option Atom} {u : Text} {cs : Layer} (hbefore : breaks b)
    (hafter : breaks cs.head?) : ∃ ps, Piece.sources ps = u ∧
      ∀ d : Dress, d.Fits (b.toList ++ (plain u ++ cs)) →
        expressionPieces d.sentinel ((d.last b).toList ++ u ++ (d.spell cs).take 1) u = ps := by
  obtain ⟨e, rfl, he⟩ := exists_of_breaks hbefore
  obtain ⟨e', he', hlast⟩ := exists_of_breaks hafter
  refine ⟨expressionPieces '$' (e.toList ++ u ++ e'.toList) u, sources_expressionPieces, fun d hd => ?_⟩
  have hnext : (d.spell cs).take 1 = e'.toList := by
    rw [← hlast d, ← Dress.head?_spell]
    cases d.spell cs <;> rfl
  rw [he, hnext]
  apply expressionPieces_of_not_mem
  intro hm
  apply hd.2
  simp only [List.mem_append, Option.mem_toList] at hm ⊢
  rcases hm with (rfl | hm) | rfl
  · exact .inl rfl
  · exact .inr (.inl (List.mem_map_of_mem hm))
  · exact .inr (.inr (List.mem_of_head? he'))

/-- **Bare math is seen in every dress.** -/
theorem blind_wrap : Blind (fun _ => True) (Wrap.recogniser candidate) where
  honest _ := honest_recogniser (fun _ _ => take_ne_nil_of_candidate h) _
  skips S b c s hS hb _ := by
    have hblank : isBlank b = false := by
      rcases hb with rfl | hb
      · exact not_isBlank_of_isPrivateUse hS
      · exact Bool.eq_false_iff.2 fun hblank =>
          not_isTokenChar_of_isEdge (by simp [isEdge, hblank]) hb
    rw [Wrap.recogniser, if_neg (by simp [hblank])]
  reads b as _ := by
    by_cases hfit : ∃ d : Dress, d.Fits (b.toList ++ as)
    swap
    · exact .inl fun d hd => absurd ⟨d, hd⟩ hfit
    by_cases hbefore : breaks b
    swap
    · refine .inl fun d hd => ?_
      rw [Wrap.recogniser, if_neg]
      rwa [Dress.all_isBlank_last hd.1]
    rcases readsAlike_of_mem_candidates h as with hnone | ⟨bs, cs, rfl, hsome⟩
    · refine .inl fun d hd => ?_
      rw [recogniser_of_breaks hd.1 hbefore, hnone d hd.right, Option.map_none]
    have hread : ∀ d : Dress, d.Fits (b.toList ++ (bs ++ cs)) →
        Wrap.recogniser candidate d.sentinel (d.last b) (d.spell (bs ++ cs)) =
          some (expressionPieces d.sentinel
            ((d.last b).toList ++ d.spell bs ++ (d.spell cs).take 1) (d.spell bs)) := by
      intro d hd
      obtain ⟨n, hn, htake, hdrop⟩ := hsome d hd.right
      rw [recogniser_of_breaks hd.1 hbefore, hn, Option.map_some, htake, hdrop]
    -- in one dress the expression is seen not to be empty, and to end at a break
    obtain ⟨d, hd⟩ := hfit
    obtain ⟨n, hn, htake, hdrop⟩ := hsome d hd.right
    have hne : bs ≠ [] := by
      rintro rfl
      exact take_ne_nil_of_candidate h hn htake
    have hafter := breaks_of_candidate h hd.1 hn hdrop
    right
    rcases eq_plain_or_exists_token bs with ⟨u, rfl⟩ | ⟨kind, i, hmem⟩
    · obtain ⟨ps, hsources, hps⟩ := exists_expression_cells (u := u) hbefore hafter
      have hlayer : Cell.layer (Cell.ofPieces ps) = plain u := by rw [Cell.layer_ofPieces, hsources]
      refine ⟨Cell.ofPieces ps, cs, by rw [hlayer], by rwa [hlayer], by simp, fun d hd => ?_⟩
      rw [hread d hd, Dress.spell_plain, hps d hd, Dress.pieces, Cell.renumber_ofPieces,
        Cell.pieces_ofPieces]
    · refine ⟨bs.map .kept, cs, by simp, by simpa using hne, by simp, fun d hd => ?_⟩
      have hin : d.sentinel ∈ d.spell bs := Dress.sentinel_mem_spell hmem
      rw [hread d hd, expressionPieces_of_mem (by simp [hin]), Dress.pieces_map_kept]

end

end MarkdownPrep.Stash
