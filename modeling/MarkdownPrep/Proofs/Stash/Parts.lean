import MarkdownPrep.Proofs.Stash.GiveBack

/-!
# Parts of a layer that is cut

A place in a layer that nothing found reaches over parts its cells too (`Cell.exists_split`), and a
stretch that is found there is a cell (`Cell.exists_found`). What a pass put aside comes back part
by part (`giveBackIn_hidden_part`): of the layers in the store those that were found elsewhere do
not matter.
-/

namespace MarkdownPrep.Stash

section
variable {S : Char}

/-- The same text at the front of one layer is the same part of it. -/
theorem append_inj_of_spell {as as' bs bs' : Layer} (h : as ++ bs = as' ++ bs')
    (hs : spell S as = spell S as') : as = as' ∧ bs = bs' := by
  rcases List.append_eq_append_iff.1 h with ⟨w, rfl, rfl⟩ | ⟨w, rfl, rfl⟩
  · rw [spell_append, List.self_eq_append_right, spell_eq_nil_iff] at hs
    simp [hs]
  · rw [spell_append, List.append_right_eq_self, spell_eq_nil_iff] at hs
    simp [hs]

/-- A part at the front whose text begins with that of another begins with the other. -/
theorem exists_append_of_spell {as as' bs bs' : Layer} {t : Text} (h : as ++ bs = as' ++ bs')
    (hs : spell S as' = spell S as ++ t) : ∃ u, as' = as ++ u ∧ bs = u ++ bs' := by
  rcases List.append_eq_append_iff.1 h with h | ⟨w, rfl, rfl⟩
  · exact h
  · rw [spell_append, List.append_assoc, List.self_eq_append_right, List.append_eq_nil_iff,
      spell_eq_nil_iff] at hs
    obtain rfl := hs.1
    exact ⟨[], by simp, by simp⟩

end

namespace Cell

section
variable {S : Char} {cs ds : List Cell}

theorem hidden_append (kind : Kind) (n : Nat) (cs ds : List Cell) :
    hidden kind n (cs ++ ds) = hidden kind n cs ++ hidden kind (n + (founds cs).length) ds := by
  induction cs generalizing n with
  | nil => rfl
  | cons c cs ih =>
    cases c with
    | kept a => simp [hidden, ih]
    | found as => simp [hidden, ih, Nat.add_assoc, Nat.add_comm 1]

/-- A token that a pass leaves was there, or stands for a stretch that it found. -/
theorem exists_found_of_token_mem_hidden {kind : Kind} {n i : Nat}
    (h : .token kind i ∈ hidden kind n cs) : .token kind i ∈ layer cs ∨
      ∃ ds as es, cs = ds ++ .found as :: es ∧ i = n + (founds ds).length := by
  induction cs generalizing n with
  | nil => cases h
  | cons c cs ih =>
    cases c with
    | kept a =>
      rcases List.mem_cons.1 h with h | h
      · exact .inl (h ▸ List.mem_cons_self)
      · refine (ih h).imp (List.mem_cons_of_mem _) ?_
        rintro ⟨ds, as, es, rfl, rfl⟩
        exact ⟨.kept a :: ds, as, es, rfl, rfl⟩
    | found m =>
      rcases List.mem_cons.1 h with h | h
      · cases h
        exact .inr ⟨[], m, cs, rfl, rfl⟩
      · refine (ih h).imp (List.mem_append_right _) ?_
        rintro ⟨ds, as, es, rfl, rfl⟩
        refine ⟨.found m :: ds, as, es, rfl, ?_⟩
        rw [founds_found, List.length_cons]
        omega

/-! ## Cells cut in two -/

theorem atom_text_ne_nil (a : Atom) : a.text S ≠ [] := by
  cases a <;> simp [Atom.text, token]

theorem eq_nil_of_keep {s : Text} {ps qs : List Piece} (h : Piece.keep s = ps ++ qs)
    (hq : Piece.sources qs = []) : qs = [] := by
  obtain ⟨u, v, rfl, rfl, rfl⟩ := List.map_eq_append_iff.1 h
  have hv : Piece.sources (Piece.keep v) = v := Piece.sources_keep v
  rw [show v = [] from hv.symm.trans hq]
  rfl

/-- The first cell is in the first part of the layer, as its first piece is. -/
theorem exists_first {c : Cell} {as bs : Layer} {ps qs : List Piece}
    (hlayer : layer (c :: cs) = as ++ bs) (hpieces : pieces S (c :: cs) = ps ++ qs)
    (hps : Piece.sources ps = spell S as) (hne : ps ≠ []) :
    ∃ as' ps', as = layer [c] ++ as' ∧ ps = pieces S [c] ++ ps' := by
  obtain ⟨p, ps, rfl⟩ := List.exists_cons_of_ne_nil hne
  cases c with
  | found m =>
    obtain ⟨rfl, -⟩ := List.cons.inj hpieces
    have hlayer : m ++ layer cs = as ++ bs := hlayer
    rcases List.append_eq_append_iff.1 hlayer with ⟨as', rfl, -⟩ | ⟨w, rfl, -⟩
    · exact ⟨as', ps, by simp, rfl⟩
    · -- the part ends in the stretch, so nothing is left over of it
      have hw : spell S w = [] ∧ Piece.sources ps = [] := by simpa [Piece.source] using hps
      obtain rfl := spell_eq_nil_iff.1 hw.1
      exact ⟨[], ps, by simp, rfl⟩
  | kept a =>
    have hkeep : Piece.keep (a.text S) ++ pieces S cs = (p :: ps) ++ qs := hpieces
    cases as with
    | nil =>
      cases p with
      | kept d => cases hps
      | found t =>
        obtain ⟨d, s, hd⟩ := List.exists_cons_of_ne_nil (atom_text_ne_nil (S := S) a)
        rw [hd] at hkeep
        cases hkeep
    | cons b as =>
      obtain ⟨rfl, -⟩ := List.cons.inj hlayer
      rcases List.append_eq_append_iff.1 hkeep with ⟨ps', hps', -⟩ | ⟨w, hw, -⟩
      · exact ⟨as, ps', rfl, by simpa using hps'⟩
      · have hsources := congrArg Piece.sources hw
        rw [Piece.sources_keep, Piece.sources_append, hps] at hsources
        have hnil : spell S as = [] ∧ Piece.sources w = [] := by
          simpa [spell, List.append_assoc] using hsources
        obtain rfl := eq_nil_of_keep hw hnil.2
        rw [List.append_nil] at hw
        exact ⟨as, [], rfl, by simpa using hw.symm⟩

/-- **Pieces that are cut in two where the layer is** come from cells that are cut in two. -/
theorem exists_split {as bs : Layer} {ps qs : List Piece} (hlayer : layer cs = as ++ bs)
    (hpieces : pieces S cs = ps ++ qs) (hps : Piece.sources ps = spell S as) :
    ∃ ds es, cs = ds ++ es ∧ layer ds = as ∧ layer es = bs ∧ pieces S ds = ps ∧
      pieces S es = qs := by
  induction cs generalizing as ps with
  | nil =>
    obtain ⟨rfl, rfl⟩ := List.append_eq_nil_iff.1 hlayer.symm
    obtain ⟨rfl, rfl⟩ := List.append_eq_nil_iff.1 hpieces.symm
    exact ⟨[], [], rfl, rfl, rfl, rfl, rfl⟩
  | cons c cs ih =>
    by_cases hne : ps = []
    · subst hne
      obtain rfl := spell_eq_nil_iff.1 hps.symm
      exact ⟨[], c :: cs, rfl, rfl, hlayer, rfl, hpieces⟩
    · obtain ⟨as, ps, rfl, rfl⟩ := exists_first hlayer hpieces hps hne
      rw [← List.singleton_append, layer_append, List.append_assoc] at hlayer
      rw [← List.singleton_append, pieces_append, List.append_assoc] at hpieces
      rw [Piece.sources_append, sources_pieces, spell_append] at hps
      obtain ⟨ds, es, rfl, rfl, rfl, rfl, rfl⟩ := ih (List.append_cancel_left hlayer)
        (List.append_cancel_left hpieces) (List.append_cancel_left hps)
      refine ⟨c :: ds, es, rfl, ?_, rfl, ?_, rfl⟩
      · rw [← List.singleton_append, layer_append]
      · rw [← List.singleton_append, pieces_append]

/-- A stretch that is found where the layer parts is a cell. -/
theorem exists_found {as bs m : Layer} {ps qs : List Piece} (hlayer : layer cs = as ++ (m ++ bs))
    (hpieces : pieces S cs = ps ++ .found (spell S m) :: qs) (hps : Piece.sources ps = spell S as) :
    ∃ ds es, cs = ds ++ .found m :: es ∧ layer ds = as ∧ layer es = bs ∧ pieces S ds = ps := by
  obtain ⟨ds, es, rfl, hds, hes, hdp, hep⟩ := exists_split hlayer hpieces hps
  cases es with
  | nil => cases hep
  | cons c es =>
    cases c with
    | kept a =>
      obtain ⟨d, s, hd⟩ := List.exists_cons_of_ne_nil (atom_text_ne_nil (S := S) a)
      rw [pieces_kept, hd] at hep
      cases hep
    | found m' =>
      obtain ⟨rfl, rfl⟩ := append_inj_of_spell hes (Piece.found.inj (List.cons.inj hep).1)
      exact ⟨ds, es, rfl, hds, rfl, hdp⟩

/-- Where nothing is found, nothing is put aside. -/
theorem hidden_of_pieces_eq_keep {s : Text} (h : pieces S cs = Piece.keep s) (kind : Kind)
    (n : Nat) : hidden kind n cs = layer cs ∧ founds cs = [] := by
  induction cs generalizing s with
  | nil => exact ⟨rfl, rfl⟩
  | cons c cs ih =>
    cases c with
    | kept a =>
      obtain ⟨u, v, rfl, -, hv⟩ := List.map_eq_append_iff.1 h.symm
      obtain ⟨hcs, hnil⟩ := ih hv.symm
      exact ⟨congrArg (a :: ·) hcs, hnil⟩
    | found as =>
      have hmem : Piece.found (spell S as) ∈ Piece.keep s := h ▸ List.mem_cons_self
      obtain ⟨c, -, hc⟩ := List.mem_map.1 hmem
      cases hc

/-- A text from which stretches were put aside begins with no character that was not there before
and stands in no token, -/
theorem head?_spell_hidden_ne {kind : Kind} {n : Nat} {c : Char} (hc : ¬ IsMark S c)
    (h : (spell S (layer cs)).head? ≠ some c) : (spell S (hidden kind n cs)).head? ≠ some c := by
  intro hhead
  have hhead := head?_of_spell hhead hc
  cases cs with
  | nil => cases hhead
  | cons d cs =>
    cases d with
    | kept a =>
      cases hhead
      exact h rfl
    | found as => cases hhead

/-- and ends with none. -/
theorem getLast?_spell_hidden_ne {kind : Kind} {n : Nat} {c : Char} (hc : ¬ IsMark S c)
    (h : (spell S (layer cs)).getLast? ≠ some c) :
    (spell S (hidden kind n cs)).getLast? ≠ some c := by
  intro hlast
  have hlast := getLast?_of_spell hlast hc
  rcases cs.eq_nil_or_concat with rfl | ⟨cs, d, rfl⟩
  · cases hlast
  rw [List.concat_eq_append] at *
  cases d with
  | kept a =>
    rw [hidden_append, hidden, hidden, List.getLast?_concat] at hlast
    cases hlast
    exact h (by rw [layer_append, spell_append]; exact List.getLast?_concat)
  | found as =>
    rw [hidden_append, hidden, hidden, List.getLast?_concat] at hlast
    cases hlast

/-- A token of a layer stands in a cell, in whose place a token is left. -/
theorem exists_cell_of_token {as bs : Layer} {kind : Kind} {i : Nat}
    (h : layer cs = as ++ .token kind i :: bs) :
    ∃ ds c es u v, cs = ds ++ c :: es ∧ as = layer ds ++ u ∧ bs = v ++ layer es ∧
      layer [c] = u ++ .token kind i :: v ∧ ∀ kind' n, ∃ kind'' j, hidden kind' n [c] =
        [.token kind'' j] := by
  induction cs generalizing as with
  | nil => simp at h
  | cons c cs ih =>
    -- the token stands in the first cell or after it
    have hlayer : layer [c] ++ layer cs = as ++ .token kind i :: bs := by
      rw [← layer_append]
      exact h
    have hlater : ∀ w, as = layer [c] ++ w → layer cs = w ++ .token kind i :: bs →
        ∃ ds d es u v, c :: cs = ds ++ d :: es ∧ as = layer ds ++ u ∧ bs = v ++ layer es ∧
          layer [d] = u ++ .token kind i :: v ∧ ∀ kind' n, ∃ kind'' j, hidden kind' n [d] =
            [.token kind'' j] := by
      rintro w rfl hw
      obtain ⟨ds, d, es, u, v, rfl, rfl, rfl, hd, htok⟩ := ih hw
      refine ⟨c :: ds, d, es, u, v, rfl, ?_, rfl, hd, htok⟩
      rw [← List.append_assoc, ← layer_append]
      rfl
    rcases List.append_eq_append_iff.1 hlayer with ⟨w, hw, hcs⟩ | ⟨w, hc, hw⟩
    · exact hlater w hw hcs
    · cases w with
      | nil => exact hlater [] (by simpa using hc.symm) (by simpa using hw.symm)
      | cons b w =>
        obtain ⟨rfl, rfl⟩ := List.cons.inj hw
        refine ⟨[], c, cs, as, w, rfl, rfl, rfl, hc, fun kind' n => ?_⟩
        cases c with
        | kept a =>
          obtain ⟨rfl, ha⟩ : as = [] ∧ Atom.token kind i :: w = [a] := by
            rcases List.append_eq_singleton_iff.1 hc.symm with h | h
            · exact h
            · cases h.2
          cases ha
          exact ⟨kind, i, rfl⟩
        | found m => exact ⟨kind', n, rfl⟩

end

end Cell

open Cell

section
variable {p : Kind → Bool} {kind : Kind}

@[simp] theorem stored_append (cs ds : List Cell) (old : Store) :
    stored kind (cs ++ ds) old = stored kind ds (stored kind cs old) := by
  simp [stored]

@[simp] theorem length_stored (cs : List Cell) (old : Store) :
    (stored kind cs old).length = old.length + (founds cs).length := by
  simp [stored, Nat.add_comm]

/-! ## Giving back part by part -/

/-- What a pass put aside does not matter where its tokens are not. -/
theorem giveBackIn_stored_of_lt {cs : List Cell} {old : Store} {as : Layer}
    (h : ∀ i, .token kind i ∈ as → i < old.length) :
    giveBackIn p (stored kind cs old) as = giveBackIn p old as := by
  induction cs generalizing old with
  | nil => rfl
  | cons c cs ih =>
    cases c with
    | kept a => exact ih h
    | found m =>
      have hnew : .token kind old.length ∉ as := fun hm => Nat.lt_irrefl _ (h _ hm)
      have hih : giveBackIn p (stored kind cs ((kind, m) :: old)) as =
          giveBackIn p ((kind, m) :: old) as := ih fun i hi => Nat.lt_succ_of_lt (h i hi)
      rw [stored_found, hih, giveBackIn, exchange_of_not_mem hnew, ite_self]

/-- **What a pass put aside of a part comes back there.** -/
theorem giveBackIn_hidden_part (cs es : List Cell) (hp : p kind) {ds : List Cell} {old : Store}
    (h : ∀ i, .token kind i ∈ layer ds → i < old.length) :
    giveBackIn p (stored kind (cs ++ (ds ++ es)) old)
      (Cell.hidden kind (old.length + (founds cs).length) ds) = giveBackIn p old (layer ds) := by
  have hlen : old.length + (founds cs).length = (stored kind cs old).length :=
    (length_stored cs old).symm
  have hlt : ∀ i, .token kind i ∈ layer ds → i < (stored kind cs old).length := fun i hi =>
    Nat.lt_of_lt_of_le (h i hi) (by simp)
  rw [stored_append, stored_append, hlen, giveBackIn_stored_of_lt, giveBackIn_hidden hp hlt,
    giveBackIn_stored_of_lt h]
  intro i hi
  rw [length_stored ds]
  rcases exists_found_of_token_mem_hidden hi with hi | ⟨us, m, vs, rfl, rfl⟩
  · exact Nat.lt_of_lt_of_le (hlt i hi) (Nat.le_add_right _ _)
  · rw [founds_append, founds_found, List.length_append, List.length_cons]
    omega

/-- Of a part of the characters that were there, these come back. -/
theorem giveBackIn_hidden_plain (cs es : List Cell) (hp : p kind) {ds : List Cell} {s : Text}
    (h : layer ds = plain s) : giveBackIn p (stored kind (cs ++ (ds ++ es)) [])
      (Cell.hidden kind (founds cs).length ds) = plain s := by
  have hnot : ∀ i, .token kind i ∈ layer ds → i < ([] : Store).length := by
    intro i hi
    rw [h] at hi
    exact absurd hi (token_not_mem_plain kind i s)
  have hback := giveBackIn_hidden_part cs es hp hnot
  rwa [h, List.length_nil, Nat.zero_add] at hback

/-- The token of a stretch that was found stands for it. -/
theorem giveBackIn_token_found (cs es : List Cell) (hp : p kind) (s : Text) :
    giveBackIn p (stored kind (cs ++ .found (plain s) :: es) []) [.token kind (founds cs).length] =
      plain s := by
  have hlayer : layer [.found (plain s)] = plain s := by simp
  exact giveBackIn_hidden_plain cs es hp hlayer

end

end MarkdownPrep.Stash
