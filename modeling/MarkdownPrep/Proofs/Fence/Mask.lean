import MarkdownPrep.Proofs.Fence.Blind

/-!
# Fence lines with display math put aside

Display math begins and ends with dollars, of which fence lines are not made. So an opening line
stays one when display math is put aside (`isOpening_hidden`), and no line comes to close a block
that did not close it (`not_endsAt_of_mem_hidden`).
-/

namespace MarkdownPrep

namespace Text

theorem newline_not_mem_of_mem_fullLines {s line : Text} (h : line ∈ fullLines s) :
    '\n' ∉ dropOneEnd '\n' line := by
  induction s generalizing line with
  | nil => cases h
  | cons c s ih =>
    rw [fullLines] at h
    split at h
    · next hc =>
      rcases List.mem_cons.1 h with rfl | h
      · rw [hc]
        decide
      · exact ih h
    · next hc =>
      split at h
      · obtain rfl := List.mem_singleton.1 h
        simp [dropOneEnd, hc, Ne.symm hc]
      · next l ls hs =>
        rw [hs] at ih
        rcases List.mem_cons.1 h with rfl | h
        · have ih := ih List.mem_cons_self
          rcases eq_or_ne l [] with rfl | hne
          · simp [dropOneEnd, hc, Ne.symm hc]
          · unfold dropOneEnd at ih ⊢
            rw [List.getLast?_cons_of_ne_nil hne]
            split
            · next hlast =>
              rw [if_pos hlast] at ih
              rw [List.dropLast_cons_of_ne_nil hne]
              simp [Ne.symm hc, ih]
            · next hlast =>
              rw [if_neg hlast] at ih
              simp [Ne.symm hc, ih]
        · exact ih (List.mem_cons_of_mem _ h)

theorem WholeLines.flatten {ls : List Text} (h : ∀ l ∈ ls, l.getLast? = some '\n') :
    WholeLines ls.flatten := by
  rcases ls.eq_nil_or_concat with rfl | ⟨ls, l, rfl⟩
  · exact .inl rfl
  · refine .inr ?_
    rw [List.concat_eq_append] at h ⊢
    rw [List.flatten_append, List.flatten_singleton, List.getLast?_append,
      h l (List.mem_append_right _ (List.mem_singleton_self l))]
    rfl

/-- A line of whole lines in its place. -/
theorem exists_of_mem_fullLines {s line : Text} (hs : WholeLines s) (h : line ∈ fullLines s) :
    ∃ x l y, s = x ++ (line ++ y) ∧ WholeLines x ∧ line = l ++ ['\n'] ∧ '\n' ∉ l := by
  obtain ⟨ls, ls', hsplit⟩ := List.append_of_mem h
  obtain ⟨l, hl⟩ := List.getLast?_eq_some_iff.1 (getLast?_of_mem_fullLines hs h)
  refine ⟨ls.flatten, l, ls'.flatten, ?_, ?_, hl, ?_⟩
  · rw [← flatten_fullLines s, hsplit, List.flatten_append, List.flatten_cons]
  · refine .flatten fun k hk => getLast?_of_mem_fullLines hs ?_
    rw [hsplit]
    exact List.mem_append_left _ hk
  · have hno := newline_not_mem_of_mem_fullLines h
    rwa [hl, dropOneEnd_concat] at hno

theorem mem_fullLines_of_append {x l y : Text} (hx : WholeLines x) (hl : '\n' ∉ l) :
    l ++ ['\n'] ∈ fullLines (x ++ (l ++ ['\n'] ++ y)) := by
  rw [fullLines_append hx, fullLines_append (.inr List.getLast?_concat), fullLines_line hl]
  simp

end Text

namespace Stash

/-- What was found begins and ends with a dollar. -/
def Dollared (cs : List Cell) : Prop :=
  ∀ m ∈ Cell.founds cs, m.head? = some (.char '$') ∧ m.getLast? = some (.char '$')

namespace Cell

variable {cs : List Cell} (h : Dollared cs)
include h

/-- A text without dollars is kept. -/
theorem exists_append_of_no_dollar {u : Text} {bs : Layer} (hu : '$' ∉ u)
    (hlayer : layer cs = plain u ++ bs) :
    ∃ ds, cs = (plain u).map kept ++ ds ∧ layer ds = bs ∧ Dollared ds := by
  induction u generalizing cs with
  | nil => exact ⟨cs, rfl, hlayer, h⟩
  | cons c u ih =>
    rw [List.mem_cons, not_or] at hu
    cases cs with
    | nil => cases hlayer
    | cons d cs =>
      cases d with
      | kept a =>
        rw [layer_kept, plain_cons, List.cons_append] at hlayer
        obtain ⟨rfl, hrest⟩ := List.cons.inj hlayer
        have hcs : Dollared cs := h
        obtain ⟨ds, rfl, hds, hdollar⟩ := ih hcs hu.2 hrest
        exact ⟨ds, rfl, hds, hdollar⟩
      | found m =>
        obtain ⟨m', rfl⟩ := List.head?_eq_some_iff.1 (h m List.mem_cons_self).1
        obtain ⟨hc, -⟩ := List.cons.inj hlayer
        exact absurd (Atom.char.inj hc) hu.1

/-- A newline at the end is kept. -/
theorem exists_concat_kept {as : Layer} (hlayer : layer cs = as ++ [.char '\n']) :
    ∃ ds, cs = ds ++ [kept (.char '\n')] ∧ layer ds = as ∧ Dollared ds := by
  rcases cs.eq_nil_or_concat with rfl | ⟨ds, c, rfl⟩
  · simp at hlayer
  rw [List.concat_eq_append] at *
  rw [layer_append] at hlayer
  cases c with
  | kept a =>
    obtain ⟨rfl, ha⟩ := List.append_inj' hlayer rfl
    cases ha
    refine ⟨ds, rfl, rfl, fun m hm => h m ?_⟩
    rw [founds_append]
    exact List.mem_append_left _ hm
  | found m =>
    have hm : m.getLast? = some (.char '$') := (h m (by simp)).2
    have hlast := congrArg List.getLast? hlayer
    rw [List.getLast?_concat, layer_found, layer_nil, List.append_nil, List.getLast?_append, hm]
      at hlast
    cases hlast

end Cell

variable {cs : List Cell} (h : Dollared cs) {kind : Kind} {k : Nat}
include h

/-- **An opening line stays one.** -/
theorem isOpening_hidden {f : Text} (hlayer : Cell.layer cs = plain f) {m : Char} {n : Nat}
    (hf : Fence.IsOpening m n f) : IsOpening m n (Cell.hidden kind k cs) := by
  obtain ⟨hm, hn, j, hj, info, rfl, hhead, htick⟩ := hf
  rw [← List.append_assoc, plain_append] at hlayer
  have hno : '$' ∉ List.replicate j ' ' ++ List.replicate n m := by
    rcases hm with rfl | rfl <;> simp [List.mem_replicate]
  obtain ⟨ds, rfl, hds, hdollar⟩ := Cell.exists_append_of_no_dollar h hno hlayer
  have hkept : ∀ (as : Layer) k, Cell.hidden kind k (as.map .kept ++ ds) =
      as ++ Cell.hidden kind k ds := by
    intro as k
    rw [Cell.hidden_append, Cell.founds_map_kept, Cell.hidden_eq_layer (Cell.founds_map_kept as),
      Cell.layer_map_kept]
    rfl
  refine ⟨hm, hn, j, hj, Cell.hidden kind k ds, hkept _ k, fun hfirst => hhead ?_, fun ht hin => ?_⟩
  · -- a character at the front of what is left was there
    cases ds with
    | nil => cases hfirst
    | cons c ds =>
      cases c with
      | found m => cases hfirst
      | kept a =>
        cases hfirst
        cases info with
        | nil => cases hds
        | cons c info => exact congrArg some (Atom.char.inj (List.cons.inj hds).1).symm
  · have hsound : Sound '`' (Cell.layer ds) := by
      rw [hds, sound_plain]
      exact htick ht
    exact Cell.sound_hidden hsound hin

theorem wholeLines_hidden {S : Char} {b : Text} (hlayer : Cell.layer cs = plain b)
    (hb : Text.WholeLines b) : Text.WholeLines (spell S (Cell.hidden kind k cs)) := by
  rcases hb with rfl | hb
  · cases cs with
    | nil => exact .inl rfl
    | cons c cs =>
      cases c with
      | kept a => cases hlayer
      | found m =>
        obtain ⟨m', rfl⟩ := List.head?_eq_some_iff.1 (h m List.mem_cons_self).1
        cases hlayer
  · obtain ⟨b, rfl⟩ := List.getLast?_eq_some_iff.1 hb
    rw [plain_append] at hlayer
    obtain ⟨ds, rfl, -, -⟩ := Cell.exists_concat_kept h hlayer
    rw [Cell.hidden_append, spell_append]
    exact .inr List.getLast?_concat

omit h

/-- The cells of which a layer is left. -/
theorem Cell.exists_of_hidden_eq_append {xs ys : Layer} (h : Cell.hidden kind k cs = xs ++ ys) :
    ∃ ds es n, cs = ds ++ es ∧ Cell.hidden kind k ds = xs ∧ Cell.hidden kind n es = ys := by
  induction cs generalizing k xs with
  | nil =>
    obtain ⟨rfl, rfl⟩ := List.append_eq_nil_iff.1 h.symm
    exact ⟨[], [], k, rfl, rfl, rfl⟩
  | cons c cs ih =>
    cases xs with
    | nil => exact ⟨[], c :: cs, k, rfl, rfl, h⟩
    | cons x xs =>
      cases c with
      | kept a =>
        obtain ⟨rfl, hrest⟩ := List.cons.inj h
        obtain ⟨ds, es, n, rfl, rfl, rfl⟩ := ih hrest
        exact ⟨.kept _ :: ds, es, n, rfl, rfl, rfl⟩
      | found m =>
        obtain ⟨rfl, hrest⟩ := List.cons.inj h
        obtain ⟨ds, es, n, rfl, rfl, rfl⟩ := ih hrest
        exact ⟨.found m :: ds, es, n, rfl, rfl, rfl⟩

/-- Characters that are left were kept. -/
theorem Cell.layer_of_hidden_eq_plain {s : Text} (h : Cell.hidden kind k cs = plain s) :
    Cell.layer cs = plain s := by
  induction cs generalizing s with
  | nil => exact h
  | cons c cs ih =>
    cases s with
    | nil => cases c <;> cases h
    | cons b s =>
      cases c with
      | kept a =>
        obtain ⟨rfl, hrest⟩ := List.cons.inj h
        exact congrArg (_ :: ·) (ih hrest)
      | found m => cases (List.cons.inj h).1

theorem Cell.getLast?_of_getLast?_hidden {c : Char}
    (h : (Cell.hidden kind k cs).getLast? = some (.char c)) :
    (Cell.layer cs).getLast? = some (.char c) := by
  obtain ⟨xs, hxs⟩ := List.getLast?_eq_some_iff.1 h
  obtain ⟨ds, es, n, rfl, -, hes⟩ := Cell.exists_of_hidden_eq_append hxs
  rw [Cell.layer_append, Cell.layer_of_hidden_eq_plain (s := [c]) hes]
  exact List.getLast?_concat

include h

/-- **No line comes to close a block.** -/
theorem not_endsAt_of_mem_hidden {S : Char} (hS : isPrivateUse S) {b : Text}
    (hlayer : Cell.layer cs = plain b) (hb : Text.WholeLines b) {o : Fence.Opening}
    (hm : Fence.IsMarker o.marker) (hn : 3 ≤ o.length)
    (hopen : ∀ line ∈ Text.fullLines b, ¬ o.endsAt (Text.dropOneEnd '\n' line)) :
    ∀ line ∈ Text.fullLines (spell S (Cell.hidden kind k cs)),
      ¬ o.endsAt (Text.dropOneEnd '\n' line) := by
  intro line hline hend
  obtain ⟨x, l, y, hsplit, hx, rfl, hl⟩ :=
    Text.exists_of_mem_fullLines (wholeLines_hidden h hlayer hb) hline
  rw [Text.dropOneEnd_concat] at hend
  -- a closing line consists of characters that are kept
  have hno : S ∉ l ++ ['\n'] := by
    have hl := sentinel_not_mem_of_isClosing hS hm ((Fence.endsAt_iff hm hn).1 hend)
    have hne := (plain_newline.ne hS).symm
    simp [hl, hne]
  have hseam : Seam S x (l ++ ['\n'] ++ y) := by
    refine .inl fun c hc => not_isMark_of_isSign hS ?_
    rcases hx with rfl | hx
    · cases hc
    · rw [hx] at hc
      cases hc
      decide
  obtain ⟨xs, as, hxs, rfl, has⟩ := exists_split_of_spell hsplit hseam
  obtain ⟨ys, rfl, -⟩ := exists_plain_of_spell has hno
  obtain ⟨ds, es, n, rfl, hds, hes⟩ := Cell.exists_of_hidden_eq_append hxs
  obtain ⟨es, es', n', rfl, hes, -⟩ := Cell.exists_of_hidden_eq_append hes
  rw [Cell.layer_append, Cell.layer_append, Cell.layer_of_hidden_eq_plain hes] at hlayer
  obtain ⟨u, v, rfl, hu, hv⟩ := List.map_eq_append_iff.1 hlayer.symm
  obtain ⟨w, v, rfl, hw, -⟩ := List.map_eq_append_iff.1 hv
  obtain rfl := plain_inj hw
  -- so it is a line of the text
  have hwhole : Text.WholeLines u := by
    rcases hx with hx | hx
    · rw [spell_eq_nil_iff.1 hx] at hds
      rw [Cell.layer_of_hidden_eq_plain (s := []) hds] at hu
      exact .inl (plain_inj hu)
    · have hlast := getLast?_of_spell hx (not_isMark_of_isSign hS (by decide))
      rw [← hds] at hlast
      have hlast := Cell.getLast?_of_getLast?_hidden hlast
      rw [← hu, List.getLast?_map, Option.map_eq_some_iff] at hlast
      obtain ⟨c, hc, hatom⟩ := hlast
      exact .inr (hc.trans (congrArg some (Atom.char.inj hatom)))
  refine hopen _ (Text.mem_fullLines_of_append hwhole hl) ?_
  rwa [Text.dropOneEnd_concat]

end Stash

end MarkdownPrep
