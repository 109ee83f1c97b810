import MarkdownPrep.Proofs.Prepare.Layering

/-!
# What preparing leaves alone

Code and display math come through as they were written, each in its place and once, and of the
text between them no character is lost, made up or moved but signs (`prepare_keeps_verbatim`). The
text may not contain the body of a token, and has to leave a private use character unused.
-/

namespace MarkdownPrep

namespace Stash

/-! ## Layers with the same rest -/

theorem exists_plain_of_rest_eq_nil {as : Layer} (h : rest as = []) :
    ∃ s : Text, as = plain s ∧ s.rest = [] := by
  induction as with
  | nil => exact ⟨[], rfl, rfl⟩
  | cons a as ih =>
    cases a with
    | token kind i => cases h
    | char c =>
      by_cases hc : isSign c
      · obtain ⟨s, rfl, hs⟩ := ih ((rest_sign_cons hc as).symm.trans h)
        exact ⟨c :: s, rfl, by simpa [Text.rest, hc] using hs⟩
      · cases (rest_char_cons hc as).symm.trans h

/-- What is no sign comes after signs. -/
theorem exists_of_rest_eq_cons {as bs : Layer} {a : Atom} (h : rest as = a :: bs) :
    ∃ (s : Text) (cs : Layer), as = plain s ++ a :: cs ∧ s.rest = [] ∧ rest cs = bs := by
  obtain ⟨x, cs, rfl, hx, -, hcs⟩ := List.filter_eq_cons_iff.1 h
  have hrest : rest x = [] := List.filter_eq_nil_iff.2 hx
  obtain ⟨s, rfl, hs⟩ := exists_plain_of_rest_eq_nil hrest
  exact ⟨s, cs, rfl, hs, hcs⟩

end Stash

open Stash

/-- A token with the characters that follow it up to the next one, before and after a change. -/
structure Stretch where
  kind : Kind
  index : Nat
  before : Text
  after : Text

namespace Stretch

/-- The layer of stretches before the change. -/
def layerBefore (ss : List Stretch) : Layer :=
  ss.flatMap fun s => .token s.kind s.index :: plain s.before

/-- The layer of stretches after the change. -/
def layerAfter (ss : List Stretch) : Layer :=
  ss.flatMap fun s => .token s.kind s.index :: plain s.after

end Stretch

/-- **Layers with the same rest** have the same tokens, and the same rest between them. -/
theorem exists_stretches_of_rest_eq {as bs : Layer} (h : rest as = rest bs) :
    ∃ (t u : Text) (ss : List Stretch), as = plain t ++ Stretch.layerBefore ss ∧
      bs = plain u ++ Stretch.layerAfter ss ∧ t.rest = u.rest ∧
      ∀ s ∈ ss, s.before.rest = s.after.rest := by
  induction as generalizing bs with
  | nil =>
    obtain ⟨u, rfl, hu⟩ := exists_plain_of_rest_eq_nil h.symm
    exact ⟨[], u, [], rfl, by simp [Stretch.layerAfter], hu.symm, by simp⟩
  | cons a as ih =>
    cases a with
    | token kind i =>
      obtain ⟨v, bs, rfl, hv, hbs⟩ := exists_of_rest_eq_cons h.symm
      obtain ⟨t, u, ss, rfl, rfl, htu, hss⟩ := ih hbs.symm
      refine ⟨[], v, ⟨kind, i, t, u⟩ :: ss, ?_, ?_, hv.symm, List.forall_mem_cons.2 ⟨htu, hss⟩⟩
      · simp [Stretch.layerBefore]
      · simp [Stretch.layerAfter]
    | char c =>
      by_cases hc : isSign c
      · obtain ⟨t, u, ss, rfl, rfl, htu, hss⟩ := ih ((rest_sign_cons hc as).symm.trans h)
        exact ⟨c :: t, u, ss, rfl, rfl, by simpa [Text.rest, hc] using htu, hss⟩
      · obtain ⟨v, bs, rfl, hv, hbs⟩ := exists_of_rest_eq_cons (h.symm.trans (rest_char_cons hc as))
        obtain ⟨t, u, ss, rfl, rfl, htu, hss⟩ := ih hbs.symm
        refine ⟨c :: t, v ++ c :: u, ss, rfl, by simp, ?_, hss⟩
        rw [Text.rest_append, hv]
        simpa [Text.rest, hc] using htu

namespace Layering

variable {n : Text} (L : Layering n)

/-- A token of the masked text stands for what is restored for it. -/
theorem restore_token (hclean : Clean (plain n)) {kind : Kind} {i : Nat}
    (hm : .token kind i ∈ L.masked) :
    (hideVerbatim n).2.restore (token n.unusedPrivate kind i) =
      spell n.unusedPrivate (giveBackIn (fun _ => true) L.verbatim [.token kind i]) := by
  have hS := not_isTokenChar_of_isPrivateUse (isPrivateUse_unusedPrivate n)
  have hcl : Clean (giveBackIn (fun _ => true) L.verbatim [.token kind i]) := by
    obtain ⟨x, y, hxy⟩ := List.append_of_mem hm
    refine hclean.of_infix ?_
    have hsplit : L.masked = x ++ ([.token kind i] ++ y) := hxy
    rw [← L.holds.giveBackIn, hsplit, giveBackIn_append, giveBackIn_append]
    exact List.infix_append' _ _ _
  have h := giveBack_spell_of_clean hS hcl
  rw [L.hideVerbatim_eq]
  have htok : spell n.unusedPrivate [.token kind i] = token n.unusedPrivate kind i := by
    simp [spell, Atom.text]
  rw [htok] at h
  exact h

/-- Restoring in a layer of tokens and runs of characters. -/
theorem spell_giveBackIn_flatMap (ss : List Stretch) (f : Stretch → Text) :
    spell n.unusedPrivate (giveBackIn (fun _ => true) L.verbatim
      (ss.flatMap fun s => .token s.kind s.index :: plain (f s))) =
    ss.flatMap fun s => spell n.unusedPrivate (giveBackIn (fun _ => true) L.verbatim
      [.token s.kind s.index]) ++ f s := by
  induction ss with
  | nil => simp
  | cons s ss ih =>
    rw [List.flatMap_cons, List.flatMap_cons, giveBackIn_append, spell_append, ih,
      ← List.singleton_append, giveBackIn_append, spell_append, giveBackIn_plain, spell_plain]

/-- No token is left in the last layer. -/
theorem exists_final_eq_plain : ∃ s, L.final = plain s := L.retouched_final.exists_plain

end Layering

/-- The text with its tokens, given before each stretch `s` by `tok s`. -/
def runs (tok f : Stretch → Text) (ss : List Stretch) : Text := ss.flatMap fun s => tok s ++ f s

/-- The masked text of `n` is a row of tokens with runs of characters before, between and after
them. What the tokens stand for, restored, makes `n` with the same runs, and makes `out` with runs
that are the same but for signs. -/
def VerbatimKept (n out : Text) : Prop :=
  let st := (hideVerbatim n).2
  let tok (s : Stretch) := token st.sentinel s.kind s.index
  ∃ (t u : Text) (ss : List Stretch),
    (hideVerbatim n).1 = t ++ runs tok Stretch.before ss ∧
    n = t ++ runs (fun s => st.restore (tok s)) Stretch.before ss ∧
    out = u ++ runs (fun s => st.restore (tok s)) Stretch.after ss ∧
    (∀ s ∈ ss, ∃ original, (tok s, s.kind, original) ∈ st.entries) ∧
    (t.rest = u.rest ∧ ∀ s ∈ ss, s.before.rest = s.after.rest) ∧
    (st.sentinel ∉ t ∧ ∀ s ∈ ss, st.sentinel ∉ s.before) ∧ st.sentinel ∉ out

/-- Runs after tokens are what a layer of them spells. -/
theorem runs_token (S : Char) (f : Stretch → Text) (ss : List Stretch) :
    runs (fun s => token S s.kind s.index) f ss =
      spell S (ss.flatMap fun s => .token s.kind s.index :: plain (f s)) := by
  rw [spell, List.flatMap_assoc]
  refine List.flatMap_congr fun s _ => ?_
  have htok := spell_token_cons (S := S) s.kind s.index (plain (f s))
  rw [spell_plain] at htok
  simpa [spell, token] using htok.symm

namespace Layering

/-- Runs after restored tokens are what the layer of the tokens spells when it is given back. -/
theorem runs_restore {n : Text} (L : Layering n) (hclean : Clean (plain n)) (f : Stretch → Text)
    {ss : List Stretch} (hss : ∀ s ∈ ss, .token s.kind s.index ∈ L.masked) :
    runs (fun s => (hideVerbatim n).2.restore (token n.unusedPrivate s.kind s.index)) f ss =
      spell n.unusedPrivate (giveBackIn (fun _ => true) L.verbatim
        (ss.flatMap fun s => .token s.kind s.index :: plain (f s))) := by
  rw [L.spell_giveBackIn_flatMap]
  exact List.flatMap_congr fun s hs => congrArg (· ++ f s) (L.restore_token hclean (hss s hs))

theorem verbatimKept {n : Text} (L : Layering n) (hn : n.unusedPrivate ∉ n)
    (hclean : Clean (plain n)) :
    VerbatimKept n (settleDollars n) := by
  obtain ⟨t, u, ss, hmasked, hback, htu, hss⟩ :=
    exists_stretches_of_rest_eq L.retouched_amountsBack.rest_eq.symm
  have htoken : ∀ s ∈ ss, .token s.kind s.index ∈ L.masked := by
    intro s hs
    rw [hmasked]
    exact List.mem_append_right _ (List.mem_flatMap.2 ⟨s, hs, List.mem_cons_self⟩)
  have hsentinel : (hideVerbatim n).2.sentinel = n.unusedPrivate := by rw [L.hideVerbatim_eq]
  unfold VerbatimKept
  simp only [hsentinel]
  refine ⟨t, u, ss, ?_, ?_, ?_, fun s hs => ?_, ⟨htu, hss⟩, ?_, ?_⟩
  · rw [L.hideVerbatim_eq, hmasked, spell_append, spell_plain, runs_token]
    rfl
  · have hback := congrArg (spell n.unusedPrivate) L.holds.giveBackIn
    rw [spell_plain, hmasked, giveBackIn_append, spell_append, giveBackIn_plain,
      spell_plain] at hback
    rw [L.runs_restore hclean _ htoken]
    exact hback.symm
  · rw [L.settleDollars_eq hclean, final, hback, giveBackIn_append, spell_append,
      giveBackIn_plain, spell_plain, L.runs_restore hclean _ htoken]
    rfl
  · obtain ⟨newer, new, older, he, hlen⟩ := L.holds.hasEntry (htoken s hs)
    refine ⟨spell n.unusedPrivate new, ?_⟩
    rw [entries, L.hideVerbatim_eq, he, ← hlen]
    exact mem_entriesOf
  · have hsound := L.holds.sound hn
    rw [hmasked, sound_append, sound_plain] at hsound
    refine ⟨hsound.1, fun s hs hm => hsound.2 (List.mem_flatMap.2 ⟨s, hs, ?_⟩)⟩
    exact List.mem_cons_of_mem _ (List.mem_map_of_mem hm)
  · obtain ⟨w, hw⟩ := L.exists_final_eq_plain
    have hsound := L.retouched_final.sound
      (not_isSign_of_isPrivateUse (isPrivateUse_unusedPrivate n)) (sound_plain.2 hn)
    rw [L.settleDollars_eq hclean, hw, spell_plain]
    exact sound_plain.1 (hw ▸ hsound)

end Layering

/-- **Preparing keeps code and display math**, each in its place and once, and changes nothing
between them but signs. -/
theorem prepare_keeps_verbatim {c : Text} (hc : c ≠ [])
    (hfresh : ∃ p, isPrivateUse p ∧ p ∉ Text.unifyLineEnds c)
    (hbody : ∀ kind i, ¬ tokenBody kind i <:+: Text.unifyLineEnds c) :
    prepare c = Text.trimEnd (settleDollars (Text.unifyLineEnds c)) ++ ['\n'] ∧
      VerbatimKept (Text.unifyLineEnds c) (settleDollars (Text.unifyLineEnds c)) := by
  obtain ⟨L⟩ := exists_layering (Text.unifyLineEnds c)
  refine ⟨?_, L.verbatimKept (unusedPrivate_not_mem hfresh) (clean_plain hbody)⟩
  rw [prepare, if_neg (by simpa using hc)]

theorem prepare_keeps_code_and_math :
    ("`$5` \\(x\\)\r\n$$y$$ $5".toList ≠ [] ∧
      (∃ p, isPrivateUse p ∧ p ∉ Text.unifyLineEnds "`$5` \\(x\\)\r\n$$y$$ $5".toList) ∧
      ∀ kind i, ¬ tokenBody kind i <:+:
        Text.unifyLineEnds "`$5` \\(x\\)\r\n$$y$$ $5".toList) ∧
    prepare "`$5` \\(x\\)\r\n$$y$$ $5".toList =
        Text.trimEnd (settleDollars
          (Text.unifyLineEnds "`$5` \\(x\\)\r\n$$y$$ $5".toList)) ++ ['\n'] ∧
      VerbatimKept (Text.unifyLineEnds "`$5` \\(x\\)\r\n$$y$$ $5".toList)
        (settleDollars (Text.unifyLineEnds "`$5` \\(x\\)\r\n$$y$$ $5".toList)) :=
  ⟨⟨by decide, ⟨'\uE000', by decide, by decide⟩, not_tokenBody_infix_of_not_mem (by decide)⟩,
    prepare_keeps_verbatim (by decide) ⟨'\uE000', by decide, by decide⟩
      (not_tokenBody_infix_of_not_mem (by decide))⟩

end MarkdownPrep
