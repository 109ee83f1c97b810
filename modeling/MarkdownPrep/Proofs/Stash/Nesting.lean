import MarkdownPrep.Proofs.Stash.GiveBack

/-!
# Stretches put aside one after the other

`Masked x s st` says that `s` and `st` come about from the text `x` and its empty stash by putting
stretches aside, each for a token of its own; a stretch may hold tokens, but does not begin or end
inside one. Such a text is the spelling of a layer in which each token stands for an entry, and the
layers of the entries, given back newest first, make the layer of `x` (`Masked.exists_layer`). So
the stash gives `x` back (`Masked.restore_eq`), unless `x` has the body of a token in it, which two
tokens next to it would make up to a token.
-/

namespace MarkdownPrep.Stash

/-- A text and a stash that come about from the text `x` by putting stretches aside. -/
inductive Masked (x : Text) : Text → Stash → Prop where
  | start : Masked x x (forText x)
  | put {u t v : Text} {st : Stash} (kind : Kind) (before : Masked x (u ++ (t ++ v)) st)
      (start_out : ∀ e ∈ st.entries, ¬ Inside e.1 u (t ++ v))
      (end_out : ∀ e ∈ st.entries, ¬ Inside e.1 (u ++ t) v) :
      Masked x (u ++ ((st.put kind t).1 ++ v)) (st.put kind t).2

/-- The tokens of a layer stand for entries of a store, and the layers of the entries, given back
newest first, make the layer of `x`. -/
structure Makes (x : Text) (es : Store) (as : Layer) : Prop where
  hasEntry : ∀ kind i, .token kind i ∈ as → HasEntry es kind i
  giveBackIn_eq : giveBackIn (fun _ => true) es as = plain x

section
variable {S : Char} {es : Store} {as : Layer} {x s : Text} {st : Stash}

theorem makes_plain (x : Text) : Makes x [] (plain x) :=
  ⟨fun kind i h => absurd h (token_not_mem_plain kind i x), rfl⟩

/-- A place that is inside no token of the entries is inside none of the layer. -/
theorem Makes.not_inside {u v : Text} (h : Makes x es as)
    (hout : ∀ e ∈ entries ⟨S, spellAll S es⟩, ¬ Inside e.1 u v) :
    ∀ kind i, .token kind i ∈ as → ¬ Inside (token S kind i) u v := by
  intro kind i hm
  obtain ⟨newer, new, older, rfl, rfl⟩ := h.hasEntry kind i hm
  exact hout _ mem_entriesOf

/-- A stretch of a layer may be put aside. -/
theorem Makes.put {pre new post : Layer} (kind : Kind) (h : Makes x es (pre ++ (new ++ post))) :
    Makes x ((kind, new) :: es) (pre ++ .token kind es.length :: post) := by
  have hfresh : .token kind es.length ∉ pre ++ (new ++ post) :=
    fun hm => Nat.lt_irrefl _ (h.hasEntry _ _ hm).lt
  simp only [List.mem_append, not_or] at hfresh
  refine ⟨fun kind' i hm => ?_, ?_⟩
  · rcases List.mem_append.1 hm with hm | hm
    · exact (h.hasEntry kind' i (List.mem_append_left _ hm)).cons _
    rcases List.mem_cons.1 hm with heq | hm
    · cases heq
      exact hasEntry_cons_self
    · exact (h.hasEntry kind' i (by simp [hm])).cons _
  · rw [giveBackIn, if_pos rfl, exchange_at hfresh.1 hfresh.2.2, h.giveBackIn_eq]

/-- **A stretch put aside is one of atoms**, so there is a layer to give back at every step. -/
theorem Masked.exists_layer (h : Masked x s st) :
    ∃ es as, s = spell x.unusedPrivate as ∧
      st = ⟨x.unusedPrivate, spellAll x.unusedPrivate es⟩ ∧ Makes x es as := by
  induction h with
  | start => exact ⟨[], plain x, (spell_plain x).symm, rfl, makes_plain x⟩
  | @put u t v st kind before start_out end_out ih =>
    obtain ⟨es, as, hspell, rfl, hmakes⟩ := ih
    obtain ⟨pre, tail, rfl, rfl, htail⟩ :=
      exists_split_of_not_inside hspell.symm (hmakes.not_inside start_out)
    obtain ⟨new, post, rfl, rfl, rfl⟩ := exists_split_of_not_inside htail fun kind i hm hin =>
      hmakes.not_inside end_out kind i (List.mem_append_right pre hm) (hin.append_left _)
    refine ⟨(kind, new) :: es, _, ?_, rfl, hmakes.put kind⟩
    simp [Stash.put, size, token]

/-- **Newest first undoes any nesting**: however stretches are put aside, of `x` or of what is left
of it, tokens and all, the stash gives `x` back. -/
theorem Masked.restore_eq (hbody : ∀ kind i, ¬ tokenBody kind i <:+: x) (h : Masked x s st) :
    st.restore s = x := by
  have hS := not_isTokenChar_of_isPrivateUse (isPrivateUse_unusedPrivate x)
  obtain ⟨es, as, rfl, rfl, hmakes⟩ := h.exists_layer
  have hclean : Clean (giveBackIn (fun _ => true) es as) := by
    rw [hmakes.giveBackIn_eq]
    exact clean_plain hbody
  have hback := giveBack_spell_of_clean hS hclean
  rw [hmakes.giveBackIn_eq, spell_plain] at hback
  exact hback

/-- Math in code: the stretch put aside last holds the token of the first. -/
theorem Masked.restore_eq_of_math_in_code :
    let x : Text := "see `a$b$` here".toList
    let math := (forText x).put .inlineMath "$b$".toList
    let code := math.2.put .inlineCode ("`a".toList ++ (math.1 ++ "`".toList))
    let s := "see ".toList ++ (code.1 ++ " here".toList)
    (∀ kind i, ¬ tokenBody kind i <:+: x) ∧ Masked x s code.2 ∧ code.2.restore s = x := by
  intro x math code s
  have hbody := not_tokenBody_infix_of_not_mem (s := x) (by decide)
  have hspace : ¬ IsMark x.unusedPrivate ' ' :=
    not_isMark_of_isEdge (isPrivateUse_unusedPrivate x) rfl
  have hmath : Masked x (("see ".toList ++ "`a".toList) ++
      (math.1 ++ ("`".toList ++ " here".toList))) math.2 :=
    .put .inlineMath .start (fun e he => by cases he) (fun e he => by cases he)
  have hcode : Masked x s code.2 := by
    refine .put .inlineCode (by simpa only [List.append_assoc] using hmath)
      (List.forall_mem_singleton.2 ?_) (List.forall_mem_singleton.2 ?_)
    · exact Seam.not_inside (.inl fun c hc => Option.some.inj hc ▸ hspace) .inlineMath 0
    · exact Seam.not_inside (.inr fun c hc => Option.some.inj hc ▸ hspace) .inlineMath 0
  exact ⟨hbody, hcode, hcode.restore_eq hbody⟩

end

end MarkdownPrep.Stash
