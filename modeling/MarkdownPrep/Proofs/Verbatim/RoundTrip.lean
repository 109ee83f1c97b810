import MarkdownPrep.Proofs.Stash.Clash
import MarkdownPrep.Proofs.Verbatim.Frame

/-!
# Giving verbatim text back

`hideVerbatim` puts stretches aside in three passes, and a stretch of a later pass may hold tokens
of an earlier one. The store that it makes holds the text (`exists_holds_hideVerbatim`), so
`Stash.restore` brings the text back unless the text itself makes up a token: `restore_eq_iff` says
exactly when, by `Stash.Clashes`.

* `restore_ne_of_clash`: a text that does not come back.
-/

namespace MarkdownPrep

open Stash

/-- Between two tokens of a text, or of one that was put aside later, stands the body of the token
of a stretch that is newer than the first and no older than the second. -/
def Stash.ClashesIn (st : Stash) (s : Text) : Prop :=
  ∃ newer kind t older, st.newestFirst = newer ++ (kind, t) :: older ∧
    ∃ u ∈ s :: newer.map Prod.snd, ∃ as, Sound st.sentinel as ∧ spell st.sentinel as = u ∧
      Flanked (tokenBody kind older.length) older.length as

/-- Clashing is a matter of the texts. -/
theorem Stash.clashesIn_spell_iff {S : Char} (hS : ¬ isTokenChar S) {es : Store} {as : Layer}
    (hs : Sound S as) (he : ∀ e ∈ es, Sound S e.2) :
    ClashesIn ⟨S, spellAll S es⟩ (spell S as) ↔ Clashes es as := by
  constructor
  · rintro ⟨newer, kind, t, older, hes, u, hu, bs, hb, rfl, h⟩
    obtain ⟨newer', rest, rfl, rfl, hrest⟩ := List.map_eq_append_iff.1 hes
    obtain ⟨⟨kind', new⟩, older', rfl, hnew, rfl⟩ := List.map_eq_cons_iff.1 hrest
    obtain ⟨rfl, -⟩ := Prod.mk.inj hnew
    refine ⟨newer', kind', new, older', rfl, bs, ?_, by simpa using h⟩
    rcases List.mem_cons.1 hu with hu | hu
    · rw [spell_inj hS hb hs hu]
      exact List.mem_cons_self
    · rw [List.map_map, List.mem_map] at hu
      obtain ⟨e, hmem, hspell⟩ := hu
      have hsound := he e (List.mem_append_left _ hmem)
      rw [← spell_inj hS hsound hb hspell]
      exact List.mem_cons_of_mem _ (List.mem_map_of_mem hmem)
  · rintro ⟨newer, kind, new, older, rfl, bs, hbs, h⟩
    refine ⟨spellAll S newer, kind, spell S new, spellAll S older, by simp [spellAll],
      spell S bs, ?_, bs, ?_, rfl, by simpa using h⟩
    · rcases List.mem_cons.1 hbs with rfl | hbs
      · exact List.mem_cons_self
      · obtain ⟨e, hmem, rfl⟩ := List.mem_map.1 hbs
        refine List.mem_cons_of_mem _ ?_
        rw [spellAll, List.map_map]
        exact List.mem_map.2 ⟨e, hmem, rfl⟩
    · rcases List.mem_cons.1 hbs with rfl | hbs
      · exact hs
      · obtain ⟨e, hmem, rfl⟩ := List.mem_map.1 hbs
        exact he e (List.mem_append_left _ hmem)

/-- A pass that puts framed stretches aside makes a store that holds the text, if it got one. -/
theorem Stash.Holds.exists_hide {S : Char} (hS : isPrivateUse S) {s : Text} {es : Store}
    {as : Layer} (h : Holds s es as) (kind : Kind) {ps : List Piece}
    (hps : Piece.sources ps = spell S as) (hp : Piece.Placed (fun _ => Framed) [] ps) :
    ∃ cs, Cell.layer cs = as ∧ Cell.pieces S cs = ps ∧
      Stash.hide kind ps ⟨S, spellAll S es⟩ =
        (spell S (Cell.hidden kind es.length cs), ⟨S, spellAll S (stored kind cs es)⟩) ∧
      Holds s (stored kind cs es) (Cell.hidden kind es.length cs) := by
  obtain ⟨cs, rfl, rfl, hf⟩ := exists_framed_cells hS hps hp
  exact ⟨cs, rfl, rfl, hide_pieces kind cs es, h.hide hf⟩

/-- **The masked text and its store hold the text.** -/
theorem exists_holds_hideVerbatim (s : Text) :
    ∃ es as, hideVerbatim s = (spell s.unusedPrivate as,
        ⟨s.unusedPrivate, spellAll s.unusedPrivate es⟩) ∧
      Holds s es as ∧ ∀ e ∈ es, e.1 = .displayMath ∨ e.1 = .fencedCode ∨ e.1 = .inlineCode := by
  have hS := isPrivateUse_unusedPrivate s
  obtain ⟨cs₁, -, -, h₁, hold₁⟩ := Holds.nil.exists_hide hS .displayMath
    (by rw [Verbatim.sources_displayMath, spell_plain]) (Verbatim.framed_displayMath s)
  obtain ⟨cs₂, -, -, h₂, hold₂⟩ := hold₁.exists_hide hS .fencedCode
    (Fence.sources_pieces _) (Fence.framed_pieces _)
  obtain ⟨cs₃, -, -, h₃, hold₃⟩ := hold₂.exists_hide hS .inlineCode
    (Verbatim.sources_inlineCode _) (Verbatim.framed_inlineCode _)
  refine ⟨_, _, ?_, hold₃, fun e he => ?_⟩
  · rw [hideVerbatim, forText]
    dsimp only
    rw [show (⟨s.unusedPrivate, []⟩ : Stash) = ⟨s.unusedPrivate, spellAll s.unusedPrivate []⟩ from
      rfl, h₁]
    dsimp only
    rw [h₂]
    dsimp only
    rw [h₃]
  · rcases mem_stored.1 he with ⟨_, -, rfl⟩ | he
    · exact .inr (.inr rfl)
    rcases mem_stored.1 he with ⟨_, -, rfl⟩ | he
    · exact .inr (.inl rfl)
    rcases mem_stored.1 he with ⟨_, -, rfl⟩ | he
    · exact .inl rfl
    · cases he

/-- **A masked text is restored exactly if nothing in it clashes.** -/
theorem restore_eq_iff {s : Text} (h : ∃ c, isPrivateUse c ∧ c ∉ s) :
    (hideVerbatim s).2.restore (hideVerbatim s).1 = s ↔
      ¬ (hideVerbatim s).2.ClashesIn (hideVerbatim s).1 := by
  obtain ⟨es, as, hhide, hold, -⟩ := exists_holds_hideVerbatim s
  have hS := not_isTokenChar_of_isPrivateUse (isPrivateUse_unusedPrivate s)
  have hs := unusedPrivate_not_mem h
  rw [hhide, clashesIn_spell_iff hS (hold.sound hs) (hold.sound_store hs)]
  exact hold.giveBack_eq_iff hS hs

theorem restore_eq_iff_of_nested :
    (∃ c, isPrivateUse c ∧ c ∉ "~~~\n`a` $$b$$\n~~~ `$$c$$`".toList) ∧
      ((hideVerbatim "~~~\n`a` $$b$$\n~~~ `$$c$$`".toList).2.restore
          (hideVerbatim "~~~\n`a` $$b$$\n~~~ `$$c$$`".toList).1 =
          "~~~\n`a` $$b$$\n~~~ `$$c$$`".toList ↔
        ¬ (hideVerbatim "~~~\n`a` $$b$$\n~~~ `$$c$$`".toList).2.ClashesIn
          (hideVerbatim "~~~\n`a` $$b$$\n~~~ `$$c$$`".toList).1) :=
  ⟨⟨'\uE000', by decide, by decide⟩, restore_eq_iff ⟨'\uE000', by decide, by decide⟩⟩

/-- Two blocks with the body of the second one's token between them: it is taken for the token. -/
theorem restore_ne_of_clash :
    (∃ c, isPrivateUse c ∧ c ∉ "$$a$$__DISPLAY_MATH_1__$$b$$".toList) ∧
      (hideVerbatim "$$a$$__DISPLAY_MATH_1__$$b$$".toList).2.restore
        (hideVerbatim "$$a$$__DISPLAY_MATH_1__$$b$$".toList).1 ≠
          "$$a$$__DISPLAY_MATH_1__$$b$$".toList :=
  ⟨⟨'\uE000', by decide, by decide⟩, by decide +kernel⟩

end MarkdownPrep
