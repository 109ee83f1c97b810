import Mathlib.Logic.Function.Basic
import MarkdownPrep.Proofs.Stash.Layer
import MarkdownPrep.Stash.Basic

/-!
# Tokens of a stash and its siblings

Stretches are put aside in the stash of a text and in siblings of it, in any order (`putEach`).
The sentinel stands at the ends of a token only, so no token is part of another one
(`token_inj_of_infix`), and a stash numbers its stretches, so it never gives a token twice
(`nodup_putEach`). What a token stands for stays the same when more is put aside
(`get?_putEach_of_some`). So the tokens are unambiguous (`putEach_unambiguous`).
-/

namespace MarkdownPrep.Stash

section
variable {S : Char} (hS : ¬ isTokenChar S) {kind kind' : Kind} {i i' : Nat}
include hS

theorem count_sentinel_token (kind : Kind) (i : Nat) : (token S kind i).count S = 2 := by
  have hbody : (tokenBody kind i).count S = 0 :=
    List.count_eq_zero_of_not_mem (sentinel_not_mem_tokenBody hS kind i)
  simp [token, hbody]

/-- **A token that is part of another one is that token.** -/
theorem token_inj_of_infix (h : token S kind i <:+: token S kind' i') : kind = kind' ∧ i = i' := by
  obtain ⟨u, v, huv⟩ := h
  -- both sentinels of the outer token are those of the inner one, so nothing is left around it
  have hcount := congrArg (List.count S) huv
  simp only [List.count_append, count_sentinel_token hS] at hcount
  have hu : u = [] := by
    cases u with
    | nil => rfl
    | cons c u =>
      obtain ⟨rfl, -⟩ := List.cons.inj huv
      rw [List.count_cons_self] at hcount
      omega
  have hv : v = [] := by
    rcases v.eq_nil_or_concat with rfl | ⟨v, c, rfl⟩
    · rfl
    · have hlast := congrArg List.getLast? huv
      simp only [token, List.concat_eq_append, ← List.append_assoc, List.getLast?_concat] at hlast
      obtain rfl := Option.some.inj hlast
      simp only [List.concat_eq_append, List.count_append, List.count_singleton_self] at hcount
      omega
  rw [hu, hv, List.nil_append, List.append_nil] at huv
  exact token_inj hS huv

end

/-! ## One stretch -/

section
variable {st : Stash} {kind : Kind} {t : Text}

theorem entries_put : (st.put kind t).2.entries = st.entries ++ [((st.put kind t).1, kind, t)] :=
  rfl

theorem exists_token_of_mem_entriesOf {S : Char} {es : List (Kind × Text)}
    {e : Text × Kind × Text} (h : e ∈ entriesOf S es) :
    ∃ kind, ∃ i < es.length, e.1 = token S kind i := by
  induction es with
  | nil => cases h
  | cons e' es ih =>
    obtain ⟨kind, t⟩ := e'
    rcases List.mem_append.1 h with h | h
    · obtain ⟨kind', i, hi, he⟩ := ih h
      exact ⟨kind', i, Nat.lt_succ_of_lt hi, he⟩
    · obtain rfl := List.mem_singleton.1 h
      exact ⟨kind, es.length, Nat.lt_succ_self _, rfl⟩

/-- What is put aside later does not change what a token stands for. -/
theorem get?_put_of_some {tok u : Text} (h : st.get? tok = some u) :
    (st.put kind t).2.get? tok = some u := by
  obtain ⟨e, he, rfl⟩ := Option.map_eq_some_iff.1 h
  rw [get?, entries_put, List.find?_append, he]
  rfl

/-- **A new token stands for the stretch that was put aside**: it is none of the tokens so far. -/
theorem get?_put_self (hS : ¬ isTokenChar st.sentinel) :
    (st.put kind t).2.get? (st.put kind t).1 = some t := by
  have hnew : st.entries.find? (fun e => e.1 == (st.put kind t).1) = none := by
    refine List.find?_eq_none.2 fun e he heq => ?_
    obtain ⟨kind', i, hi, htok⟩ := exists_token_of_mem_entriesOf he
    have hsame := token_inj hS (htok.symm.trans (beq_iff_eq.1 heq))
    exact absurd hsame.2 (Nat.ne_of_lt hi)
  rw [get?, entries_put, List.find?_append, hnew]
  simp

end

/-! ## One stretch after the other -/

section
variable {ι : Type} [DecidableEq ι]

/-- The stash of a text and siblings of it. A sibling is empty whenever it is made, so it may be
there from the start. -/
def family (own : ι) (x : Text) : ι → Stash :=
  Function.update (fun _ => (forText x).emptied) own (forText x)

/-- Puts stretches aside one after the other, each in the stash that is named with it, and gives
their tokens with the same names. -/
def putEach : List (ι × Kind × Text) → (ι → Stash) → List (ι × Text) × (ι → Stash)
  | [], sts => ([], sts)
  | (i, kind, t) :: ps, sts =>
    let (tok, st) := (sts i).put kind t
    let (toks, sts') := putEach ps (Function.update sts i st)
    ((i, tok) :: toks, sts')

/-- The tokens `toks` tell apart the stretches `ps` that were put aside, now in the stashes `sts`,
and the text `x`. -/
structure Unambiguous (x : Text) (ps : List (ι × Kind × Text)) (toks : List (ι × Text))
    (sts : ι → Stash) : Prop where
  /-- No stash gave a token twice. -/
  nodup : toks.Nodup
  eq_of_infix : ∀ a ∈ toks, ∀ b ∈ toks, a.2 <:+: b.2 → a.2 = b.2
  not_infix : ∀ a ∈ toks, ¬ a.2 <:+: x
  /-- Each token stands for its stretch in the stash where that is. -/
  get? : List.Forall₂ (fun p a => a.1 = p.1 ∧ (sts p.1).get? a.2 = some p.2.2) ps toks

variable {S : Char} {ps : List (ι × Kind × Text)} {sts : ι → Stash}

theorem family_eq (own : ι) (x : Text) (i : ι) : family own x i = forText x := by
  rw [family, Function.update_apply]
  split <;> rfl

theorem putEach_cons (i : ι) (kind : Kind) (t : Text) (ps : List (ι × Kind × Text))
    (sts : ι → Stash) : putEach ((i, kind, t) :: ps) sts =
      let rest := putEach ps (Function.update sts i ((sts i).put kind t).2)
      ((i, ((sts i).put kind t).1) :: rest.1, rest.2) := rfl

/-- Putting aside keeps the sentinel. -/
theorem sentinel_update (hsts : ∀ i, (sts i).sentinel = S) (i : ι) (kind : Kind) (t : Text)
    (j : ι) : (Function.update sts i ((sts i).put kind t).2 j).sentinel = S := by
  rw [Function.update_apply]
  split
  · exact hsts i
  · exact hsts j

theorem get?_putEach_of_some {i : ι} {tok t : Text} (h : (sts i).get? tok = some t) :
    ((putEach ps sts).2 i).get? tok = some t := by
  induction ps generalizing sts with
  | nil => exact h
  | cons p ps ih =>
    obtain ⟨j, kind, u⟩ := p
    refine ih ?_
    by_cases hij : i = j
    · subst hij
      rw [Function.update_self]
      exact get?_put_of_some h
    · rwa [Function.update_of_ne hij]

/-- **Each token stands for its stretch** in the end. -/
theorem forall₂_putEach (hS : ¬ isTokenChar S) (hsts : ∀ i, (sts i).sentinel = S) :
    List.Forall₂ (fun p a => a.1 = p.1 ∧ ((putEach ps sts).2 p.1).get? a.2 = some p.2.2) ps
      (putEach ps sts).1 := by
  induction ps generalizing sts with
  | nil => exact .nil
  | cons p ps ih =>
    obtain ⟨i, kind, t⟩ := p
    rw [putEach_cons]
    refine .cons ⟨rfl, get?_putEach_of_some ?_⟩ (ih (sentinel_update hsts i kind t))
    rw [Function.update_self]
    exact get?_put_self (hsts i ▸ hS)

/-- The tokens of a stash are numbered from its size on. -/
theorem exists_of_mem_putEach (hsts : ∀ i, (sts i).sentinel = S) {i : ι} {tok : Text}
    (h : (i, tok) ∈ (putEach ps sts).1) : ∃ kind n, (sts i).size ≤ n ∧ tok = token S kind n := by
  induction ps generalizing sts with
  | nil => cases h
  | cons p ps ih =>
    obtain ⟨j, kind, t⟩ := p
    rw [putEach_cons] at h
    rcases List.mem_cons.1 h with heq | h
    · obtain ⟨rfl, rfl⟩ := Prod.mk.inj heq
      exact ⟨kind, (sts i).size, Nat.le_refl _, by rw [put, hsts]⟩
    · obtain ⟨kind', n, hn, rfl⟩ := ih (sentinel_update hsts j kind t) h
      refine ⟨kind', n, Nat.le_trans ?_ hn, rfl⟩
      rw [Function.update_apply]
      split
      · next hij => exact hij ▸ Nat.le_succ _
      · exact Nat.le_refl _

/-- **No stash gives a token twice.** -/
theorem nodup_putEach (hS : ¬ isTokenChar S) (hsts : ∀ i, (sts i).sentinel = S) :
    (putEach ps sts).1.Nodup := by
  induction ps generalizing sts with
  | nil => exact .nil
  | cons p ps ih =>
    obtain ⟨i, kind, t⟩ := p
    have hnext := sentinel_update hsts i kind t
    rw [putEach_cons]
    refine List.nodup_cons.2 ⟨fun hm => ?_, ih hnext⟩
    obtain ⟨kind', n, hn, htok⟩ := exists_of_mem_putEach hnext hm
    rw [put, hsts] at htok
    have hsize : (sts i).size + 1 ≤ n := by rwa [Function.update_self] at hn
    have hsame := (token_inj hS htok).2
    omega

/-- **The tokens of the stash of a text and its siblings are unambiguous.** -/
theorem putEach_unambiguous {x : Text} (hx : ∃ c, isPrivateUse c ∧ c ∉ x) (own : ι)
    (ps : List (ι × Kind × Text)) :
    Unambiguous x ps (putEach ps (family own x)).1 (putEach ps (family own x)).2 := by
  have hS := not_isTokenChar_of_isPrivateUse (isPrivateUse_unusedPrivate x)
  have hsts : ∀ i, (family own x i).sentinel = x.unusedPrivate := fun i =>
    congrArg sentinel (family_eq own x i)
  refine ⟨nodup_putEach hS hsts, ?_, ?_, forall₂_putEach hS hsts⟩
  · rintro ⟨i, tok⟩ ha ⟨j, tok'⟩ hb hpart
    obtain ⟨kind, n, -, rfl⟩ := exists_of_mem_putEach hsts ha
    obtain ⟨kind', n', -, rfl⟩ := exists_of_mem_putEach hsts hb
    obtain ⟨rfl, rfl⟩ := token_inj_of_infix hS hpart
    rfl
  · rintro ⟨i, tok⟩ ha hpart
    obtain ⟨kind, n, -, rfl⟩ := exists_of_mem_putEach hsts ha
    exact unusedPrivate_not_mem hx (hpart.subset List.mem_cons_self)

/-- Twelve amounts, so that the numbers 1 and 11 come up, and code of number 0 in a sibling. -/
theorem putEach_unambiguous_of_sibling :
    let x : Text := "a\uE000b".toList
    let ps : List (Bool × Kind × Text) :=
      (false, .fencedCode, "`$5`".toList) :: List.replicate 12 (true, .currency, "$5".toList)
    (∃ c, isPrivateUse c ∧ c ∉ x) ∧
      Unambiguous x ps (putEach ps (family true x)).1 (putEach ps (family true x)).2 := by
  have hx : ∃ c, isPrivateUse c ∧ c ∉ "a\uE000b".toList := ⟨'\uE001', by decide, by decide⟩
  exact ⟨hx, putEach_unambiguous hx true _⟩

end

end MarkdownPrep.Stash
