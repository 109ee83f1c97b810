import MarkdownPrep.Proofs.Prepare.Place

/-!
# Parts of a text as they were written

Bracket delimiters are looked for in a text without code, display math and amounts
(`Delimiter.seen`). A part of it as it was written has them back (`Delimiter.asWritten`), and a
part of the layer after the passes has them back with the dollars of the amounts escaped
(`Layering.outcome`). The two differ in signs only (`Layering.rest_outcome`), not at all where no
dollar was written (`Layering.outcome_eq_source`), and the second does not end in a backslash if
the first does not (`Layering.getLast?_outcome_ne`).
-/

namespace MarkdownPrep

open Stash

namespace Delimiter

/-- The text in which bracket delimiters are looked for: code, display math and amounts are put
aside. -/
def seen (n : Text) : Text := (Amount.hide (hideVerbatim n).1 (hideVerbatim n).2.emptied).1

/-- A part of that text as it was written, with what was put aside in it. -/
def asWritten (n part : Text) : Text :=
  (hideVerbatim n).2.restore
    ((Amount.hide (hideVerbatim n).1 (hideVerbatim n).2.emptied).2.restore part)

end Delimiter

/-- A sign stays where it is written. -/
theorem Delimiter.mem_asWritten {n part : Text} {c : Char} (hc : isSign c) (h : c ∈ part) :
    c ∈ asWritten n part := by
  obtain ⟨L⟩ := exists_layering n
  have hmark := not_isMark_of_isSign (isPrivateUse_unusedPrivate n) hc
  rw [asWritten, L.hideVerbatim_eq]
  dsimp only [Stash.emptied]
  rw [L.hide_amounts]
  exact mem_giveBack hmark (mem_giveBack hmark h)

namespace Layering

variable {n : Text} (L : Layering n)

/-- A layer as it was written. -/
def source (as : Layer) : Layer :=
  giveBackIn (fun _ => true) L.verbatim (giveBackIn (fun _ => true) L.amountStore as)

/-- A layer with everything given back, the dollars of amounts escaped. -/
def outcome (as : Layer) : Layer :=
  giveBackIn (fun _ => true) L.verbatim (giveBackIn (fun _ => true) L.escapedStore as)

@[simp] theorem source_append (as bs : Layer) :
    L.source (as ++ bs) = L.source as ++ L.source bs := by simp [source]

@[simp] theorem outcome_append (as bs : Layer) :
    L.outcome (as ++ bs) = L.outcome as ++ L.outcome bs := by simp [outcome]

@[simp] theorem source_plain (s : Text) : L.source (plain s) = plain s := by simp [source]

@[simp] theorem outcome_plain (s : Text) : L.outcome (plain s) = plain s := by simp [outcome]

theorem source_unamounted : L.source L.unamounted = plain n := by
  rw [source, L.giveBackIn_amounts, L.holds.giveBackIn]

theorem seen_eq : Delimiter.seen n = spell n.unusedPrivate L.unamounted := by
  rw [Delimiter.seen, L.hideVerbatim_eq]
  dsimp only [Stash.emptied]
  rw [L.hide_amounts]

theorem toDollars_seen :
    Delimiter.toDollars (Delimiter.seen n) = spell n.unusedPrivate L.dollars := by
  rw [L.seen_eq]
  exact L.toDollars_eq

/-- **A part of the seen text as it was written.** -/
theorem asWritten_spell (hclean : Clean (plain n)) {as : Layer} (h : as <:+: L.unamounted) :
    Delimiter.asWritten n (spell n.unusedPrivate as) = spell n.unusedPrivate (L.source as) := by
  have hS := not_isTokenChar_of_isPrivateUse (isPrivateUse_unusedPrivate n)
  have hsource : Clean (L.source as) := by
    obtain ⟨x, y, hxy⟩ := h
    refine hclean.of_infix ?_
    rw [← L.source_unamounted, ← hxy, source_append, source_append]
    exact List.infix_append _ _ _
  have hstep : giveBack (fun _ t => some t) n.unusedPrivate
      (spellAll n.unusedPrivate L.amountStore) (spell n.unusedPrivate as) =
        spell n.unusedPrivate (giveBackIn (fun _ => true) L.amountStore as) :=
    giveBack_spell_of_clean hS (clean_of_giveBackIn hsource)
  rw [Delimiter.asWritten, L.hideVerbatim_eq]
  dsimp only [Stash.emptied]
  rw [L.hide_amounts, restore, restore]
  dsimp only
  rw [hstep]
  exact giveBack_spell_of_clean hS hsource

/-! ## What is the same -/

theorem rest_outcome {as bs : Layer} (h : rest as = rest bs) :
    rest (L.outcome as) = rest (L.source bs) := by
  rw [outcome, source, rest_giveBackIn, rest_giveBackIn, rest_giveBackIn, rest_giveBackIn, h,
    L.retouched_escapedStore.rest_eq]

theorem retouched_outcome {as bs : Layer} (h : Retouched as bs) :
    Retouched (L.source as) (L.outcome bs) :=
  (h.giveBackIn L.retouched_escapedStore).giveBackIn (.refl _)

/-- Amounts have no tokens but their own. -/
theorem giveBackIn_amounts_of_not_mem {as : Layer} (h : ∀ i, .token .currency i ∉ as) :
    giveBackIn (fun _ => true) L.amountStore as = as ∧
      giveBackIn (fun _ => true) L.escapedStore as = as := by
  have key : ∀ es : Store, (∀ e ∈ es, e.1 = .currency) → giveBackIn (fun _ => true) es as = as := by
    intro es hes
    rw [giveBackIn_congr (q := (· == .currency)) fun e he => by simp [hes e he]]
    refine giveBackIn_of_forall_token (fun kind i hm => ?_) es
    refine beq_eq_false_iff_ne.2 fun hk => h i ?_
    exact hk ▸ hm
  have hkind : ∀ e ∈ L.amountStore, e.1 = .currency := by
    intro e he
    rcases mem_stored.1 he with ⟨_, -, rfl⟩ | he
    · rfl
    · cases he
  refine ⟨key _ hkind, key _ fun e he => ?_⟩
  obtain ⟨e', he', rfl⟩ := List.mem_map.1 he
  exact hkind e' he'

/-- The token of an amount stands for one. -/
theorem exists_amount {i : Nat} (h : .token .currency i ∈ L.unamounted) :
    ∃ t, giveBackIn (fun _ => true) L.amountStore [.token .currency i] = plain t ∧
      Amount.IsWritten t := by
  have hnot : ∀ i, .token .currency i ∉ Cell.layer L.amounts :=
    fun i hi => L.not_mem_masked_of_kind (by decide) i (L.layer_amounts ▸ hi)
  rcases Cell.exists_found_of_token_mem_hidden h with h | ⟨ds, m, es, hsplit, rfl⟩
  · exact absurd h (hnot i)
  · obtain ⟨t, rfl, ht⟩ := L.written m (by simp [hsplit])
    refine ⟨t, ?_, ht⟩
    rw [amountStore, hsplit, Nat.zero_add]
    exact giveBackIn_token_found ds es rfl t

/-- **Where no dollar was written, the outcome is what was written.** -/
theorem outcome_eq_source {as : Layer} (h : as <:+: L.unamounted)
    (hdollar : .char '$' ∉ L.source as) : L.outcome as = L.source as := by
  have hnot : ∀ i, .token .currency i ∉ as := by
    intro i hi
    obtain ⟨t, ht, hwritten⟩ := L.exists_amount (h.subset hi)
    obtain ⟨x, y, rfl⟩ := List.append_of_mem hi
    refine hdollar (char_mem_giveBackIn ?_)
    rw [← List.singleton_append, giveBackIn_append, giveBackIn_append, ht]
    have hm : Atom.char '$' ∈ plain t := List.mem_map_of_mem hwritten.dollar
    simp [hm]
  obtain ⟨hsource, houtcome⟩ := L.giveBackIn_amounts_of_not_mem hnot
  rw [outcome, source, hsource, houtcome]

/-! ## Backslashes -/

/-- What a token stands for does not end in a backslash, unless it ends the text. -/
theorem getLast?_source_token_ne {x y : Layer} {kind : Kind} {i : Nat} {c : Char}
    (h : L.unamounted = x ++ .token kind i :: y) (hy : .char c ∈ y) :
    L.source [.token kind i] ≠ [] ∧
      (L.source [.token kind i]).getLast? ≠ some (.char '\\') := by
  by_cases hk : kind = .currency
  · subst hk
    obtain ⟨t, ht, hamount⟩ := L.exists_amount (i := i) (by simp [h])
    rw [source, ht, giveBackIn_plain]
    refine ⟨by simpa [plain] using List.ne_nil_of_mem hamount.dollar, fun hlast => ?_⟩
    rw [plain, List.getLast?_map, Option.map_eq_some_iff] at hlast
    obtain ⟨d, hd, hdc⟩ := hlast
    cases hdc
    exact absurd (hamount.all _ (List.mem_of_getLast? hd)) (by decide)
  · have hone : giveBackIn (fun _ => true) L.amountStore [.token kind i] = [.token kind i] :=
      (L.giveBackIn_amounts_of_not_mem fun j hj => by simp [Ne.symm hk] at hj).1
    have hmasked : L.masked = giveBackIn (fun _ => true) L.amountStore x ++ .token kind i ::
        giveBackIn (fun _ => true) L.amountStore y := by
      rw [← L.giveBackIn_amounts, h, ← List.singleton_append, giveBackIn_append,
        giveBackIn_append, hone]
      rfl
    obtain ⟨d, hd, hedge⟩ := L.holds.shut_giveBackIn hmasked
      (List.ne_nil_of_mem (char_mem_giveBackIn hy))
    rw [source, hone]
    refine ⟨fun hnil => ?_, fun hlast => ?_⟩
    · rw [hnil] at hd
      cases hd
    · cases hlast.symm.trans hd
      exact absurd hedge (by decide)

/-- **The outcome of a part does not end in a backslash** if the part does not, be it retouched. -/
theorem getLast?_outcome_ne {as bs x y : Layer} {c : Char} (h : Retouched as bs)
    (hrest : rest as = rest x) (hx : L.unamounted = x ++ y) (hy : .char c ∈ y)
    (hlast : as.getLast? ≠ some (.char '\\')) :
    (L.outcome bs).getLast? ≠ some (.char '\\') := by
  refine (L.retouched_outcome h).getLast?_ne ?_
  rcases as.eq_nil_or_concat with rfl | ⟨as, a, rfl⟩
  · simp [source]
  rw [List.concat_eq_append] at *
  rw [source_append]
  cases a with
  | char d =>
    rw [show [Atom.char d] = plain [d] from rfl, source_plain]
    simpa using hlast
  | token kind i =>
    have hm : .token kind i ∈ x := by
      refine (List.mem_filter.1 (?_ : .token kind i ∈ rest x)).1
      rw [← hrest]
      simp
    obtain ⟨u, v, rfl⟩ := List.append_of_mem hm
    have hsplit : L.unamounted = u ++ .token kind i :: (v ++ y) := by simp [hx]
    obtain ⟨hne, hlast⟩ := L.getLast?_source_token_ne hsplit (List.mem_append_right _ hy)
    rwa [List.getLast?_append_of_ne_nil _ hne]

end Layering

end MarkdownPrep
