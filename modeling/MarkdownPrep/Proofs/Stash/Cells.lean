import MarkdownPrep.Proofs.Stash.Layer
import MarkdownPrep.Proofs.Text.Pieces
import MarkdownPrep.Stash.Basic

/-!
# Cutting a layer

The pieces into which a pass cuts the text of a layer respect its tokens if every stretch that is
found stands between two places that are not inside a token (`Between`). Then the pieces come from
*cells*: atoms that are kept and stretches of atoms that are found (`exists_cells`). What a pass
makes of the found stretches when it puts them aside is an operation on cells (`hide_pieces`).
-/

namespace MarkdownPrep.Stash

/-- A part of a layer that is cut: an atom that no stretch covers, or a stretch that was found. -/
inductive Cell where
  | kept (a : Atom)
  | found (as : Layer)
  deriving DecidableEq, Repr

namespace Cell

/-- The layer that cells were cut from. -/
def layer (cs : List Cell) : Layer :=
  cs.flatMap fun
    | kept a => [a]
    | found as => as

/-- The pieces of the text of a layer that was cut into cells. -/
def pieces (S : Char) (cs : List Cell) : List Piece :=
  cs.flatMap fun
    | kept a => Piece.keep (a.text S)
    | found as => [.found (spell S as)]

/-- The found stretches in order. -/
def founds (cs : List Cell) : List Layer :=
  cs.filterMap fun
    | kept _ => none
    | found as => some as

/-- The cells with each found stretch replaced by a token of `kind`, numbered from `n`. -/
def hidden (kind : Kind) : Nat → List Cell → Layer
  | _, [] => []
  | n, kept a :: cs => a :: hidden kind n cs
  | n, found _ :: cs => .token kind n :: hidden kind (n + 1) cs

section
variable {S : Char} {a : Atom} {as : Layer} {cs : List Cell}

@[simp] theorem layer_nil : layer [] = [] := rfl
@[simp] theorem layer_kept : layer (kept a :: cs) = a :: layer cs := rfl
@[simp] theorem layer_found : layer (found as :: cs) = as ++ layer cs := rfl
@[simp] theorem pieces_nil : pieces S [] = [] := rfl
@[simp] theorem pieces_kept : pieces S (kept a :: cs) = Piece.keep (a.text S) ++ pieces S cs := rfl
@[simp] theorem pieces_found : pieces S (found as :: cs) = .found (spell S as) :: pieces S cs := rfl
@[simp] theorem founds_nil : founds [] = [] := rfl
@[simp] theorem founds_kept : founds (kept a :: cs) = founds cs := rfl
@[simp] theorem founds_found : founds (found as :: cs) = as :: founds cs := rfl
@[simp] theorem layer_append {ds : List Cell} : layer (cs ++ ds) = layer cs ++ layer ds := by
  simp [layer]

@[simp] theorem founds_append {ds : List Cell} : founds (cs ++ ds) = founds cs ++ founds ds := by
  simp [founds]

@[simp] theorem pieces_append {ds : List Cell} :
    pieces S (cs ++ ds) = pieces S cs ++ pieces S ds := by simp [pieces]

@[simp] theorem sources_pieces : Piece.sources (pieces S cs) = spell S (layer cs) := by
  induction cs with
  | nil => rfl
  | cons c cs ih => cases c <;> simp [ih, spell, Piece.source]

/-- The found pieces are the texts of the found stretches. -/
theorem founds_pieces : Piece.founds (pieces S cs) = (founds cs).map (spell S) := by
  induction cs with
  | nil => rfl
  | cons c cs ih =>
    cases c with
    | kept a =>
      rw [pieces_kept, Piece.founds_append, Piece.founds_keep, List.nil_append, ih, founds_kept]
    | found as => rw [pieces_found, Piece.founds_found_cons, ih, founds_found, List.map_cons]

/-- A found stretch is part of the layer. -/
theorem infix_layer_of_mem_founds (h : as ∈ founds cs) : as <:+: layer cs := by
  induction cs with
  | nil => simp at h
  | cons c cs ih =>
    cases c with
    | kept a => exact (ih h).trans (List.suffix_cons a _).isInfix
    | found bs =>
      rcases List.mem_cons.1 h with rfl | h
      · exact (List.prefix_append _ _).isInfix
      · exact (ih h).trans (List.suffix_append _ _).isInfix

/-- The tokens that a pass leaves are those that were there and its own. -/
theorem token_mem_hidden {kind kind' : Kind} {n i : Nat} (h : .token kind' i ∈ hidden kind n cs) :
    kind' = kind ∨ .token kind' i ∈ layer cs := by
  induction cs generalizing n with
  | nil => cases h
  | cons c cs ih =>
    cases c with
    | kept a =>
      rcases List.mem_cons.1 h with h | h
      · exact .inr (h ▸ List.mem_cons_self)
      · exact (ih h).imp_right (List.mem_cons_of_mem _)
    | found as =>
      rcases List.mem_cons.1 h with h | h
      · exact .inl (Atom.token.inj h).1
      · exact (ih h).imp_right (List.mem_append_right _)

/-- Of characters only tokens of its own are left. -/
theorem kind_eq_of_token_mem_hidden {s : Text} (hlayer : layer cs = plain s) {kind kind' : Kind}
    {n i : Nat} (h : .token kind' i ∈ hidden kind n cs) : kind' = kind := by
  refine (token_mem_hidden h).resolve_right fun hm => ?_
  rw [hlayer] at hm
  exact token_not_mem_plain _ _ _ hm

/-- Where nothing is found, nothing is put aside. -/
theorem hidden_eq_layer {kind : Kind} {n : Nat} (h : founds cs = []) :
    hidden kind n cs = layer cs := by
  induction cs with
  | nil => rfl
  | cons c cs ih =>
    cases c with
    | kept a => exact congrArg (a :: ·) (ih h)
    | found m => cases h

/-- The characters that a pass leaves were there. -/
theorem sound_hidden {S : Char} {kind : Kind} {n : Nat} (h : Sound S (layer cs)) :
    Sound S (hidden kind n cs) := by
  induction cs generalizing n with
  | nil => exact h
  | cons c cs ih =>
    cases c with
    | kept a =>
      intro hm
      rcases List.mem_cons.1 hm with hm | hm
      · exact h (hm ▸ List.mem_cons_self)
      · exact ih h.of_cons hm
    | found as =>
      intro hm
      rcases List.mem_cons.1 hm with hm | hm
      · cases hm
      · exact ih (sound_append.1 h).2 hm

end

end Cell

open Cell

/-! ## From pieces to cells -/

/-- A stretch `t` after `s` and before `u` does not start inside a token, and does not end inside
one either, be it for what stands at its end or for want of a sentinel in it. -/
def Between (S : Char) (s t u : Text) : Prop :=
  Seam S s (t ++ u) ∧ (Seam S t u ∨ S ∉ t)

section
variable {S : Char}

/-- Inside a token nothing is found. -/
theorem exists_keep_of_placed {s u v : Text} {ps : List Piece} (hu : ∀ c ∈ u, IsMark S c)
    (hs : ∃ c, s.getLast? = some c ∧ IsMark S c) (hps : Piece.sources ps = u ++ v)
    (hp : Piece.Placed (Between S) s ps) : ∃ qs, ps = Piece.keep u ++ qs := by
  induction u generalizing s ps with
  | nil => exact ⟨ps, rfl⟩
  | cons c u ih =>
    rw [List.forall_mem_cons] at hu
    cases ps with
    | nil => cases hps
    | cons p ps =>
      cases p with
      | kept d =>
        obtain ⟨rfl, hps'⟩ := List.cons.inj hps
        obtain ⟨qs, rfl⟩ := ih hu.2 ⟨d, List.getLast?_concat, hu.1⟩ hps'
          (Piece.placed_kept_cons.1 hp)
        exact ⟨qs, rfl⟩
      | found t =>
        obtain ⟨d, hd, hmark⟩ := hs
        have hhead : (t ++ Piece.sources ps).head? = some c := by
          have : t ++ Piece.sources ps = c :: (u ++ v) := hps
          rw [this]
          rfl
        rcases (Piece.placed_found_cons.1 hp).1.1 with h | h
        · exact absurd hmark (h d hd)
        · exact absurd hu.1 (h c hhead)

/-- **Pieces that respect the tokens of a layer come from cells.** -/
theorem exists_cells_from {s : Text} {as : Layer} {ps : List Piece}
    (hps : Piece.sources ps = spell S as) (hp : Piece.Placed (Between S) s ps) :
    ∃ cs, layer cs = as ∧ pieces S cs = ps := by
  have key : ∀ (n : Nat) (s : Text) (as : Layer) (ps : List Piece), ps.length = n →
      Piece.sources ps = spell S as → Piece.Placed (Between S) s ps →
      ∃ cs, layer cs = as ∧ pieces S cs = ps := by
    intro n
    induction n using Nat.strongRecOn with
    | ind n ih =>
      rintro s as ps rfl hps hp
      cases ps with
      | nil =>
        cases as with
        | nil => exact ⟨[], rfl, rfl⟩
        | cons a as => cases a <;> simp at hps
      | cons p ps =>
        have hlen : ps.length < (p :: ps).length := Nat.lt_succ_self _
        cases p with
        | found t =>
          obtain ⟨⟨-, hend⟩, hp⟩ := Piece.placed_found_cons.1 hp
          have hps : spell S as = t ++ Piece.sources ps := hps.symm
          obtain ⟨as₁, as₂, rfl, rfl, h2⟩ : ∃ as₁ as₂, as = as₁ ++ as₂ ∧ spell S as₁ = t ∧
              spell S as₂ = Piece.sources ps := by
            rcases hend with h | h
            · exact exists_split_of_spell hps h
            · obtain ⟨as', rfl, h'⟩ := exists_plain_of_spell hps h
              exact ⟨plain t, as', rfl, spell_plain t, h'⟩
          obtain ⟨cs, rfl, rfl⟩ := ih _ hlen _ as₂ ps rfl h2.symm hp
          exact ⟨.found as₁ :: cs, rfl, rfl⟩
        | kept c =>
          have hp := Piece.placed_kept_cons.1 hp
          cases as with
          | nil => cases hps
          | cons a as =>
            cases a with
            | char d =>
              obtain ⟨rfl, hps'⟩ := List.cons.inj hps
              obtain ⟨cs, rfl, rfl⟩ := ih _ hlen _ as ps rfl hps' hp
              exact ⟨.kept (.char c) :: cs, rfl, rfl⟩
            | token kind i =>
              rw [spell_token_cons] at hps
              obtain ⟨rfl, hps'⟩ := List.cons.inj hps
              have hps : Piece.sources ps = (tokenBody kind i ++ [c]) ++ spell c as :=
                hps'.trans (by simp)
              obtain ⟨qs, rfl⟩ := exists_keep_of_placed (u := tokenBody kind i ++ [c])
                (fun d hd => isMark_of_mem_token (List.mem_cons_of_mem c hd))
                ⟨c, List.getLast?_concat, .inl rfl⟩ hps hp
              rw [Piece.sources_append, Piece.sources_keep, List.append_cancel_left_eq] at hps
              have hlt : qs.length < (.kept c :: (Piece.keep (tokenBody kind i ++ [c]) ++ qs)).length :=
                by simp only [List.length_cons, List.length_append]; omega
              obtain ⟨cs, rfl, rfl⟩ := ih qs.length hlt _ as qs rfl hps (Piece.placed_append.1 hp).2
              exact ⟨.kept (.token kind i) :: cs, rfl, rfl⟩
  exact key _ s as ps rfl hps hp

theorem exists_cells {as : Layer} {ps : List Piece} (hps : Piece.sources ps = spell S as)
    (hp : Piece.Placed (Between S) [] ps) : ∃ cs, layer cs = as ∧ pieces S cs = ps :=
  exists_cells_from hps hp

/-! ## Framed stretches -/

/-- A stretch `t` before `u` begins with an edge, and ends with one or where the text ends. -/
def Framed (t u : Text) : Prop :=
  (∃ c, t.head? = some c ∧ isEdge c) ∧ ((∃ c, t.getLast? = some c ∧ isEdge c) ∨ u = [])

/-- Every found stretch begins with an edge, and ends with one or where the layer ends. -/
def Cell.Framed : List Cell → Prop
  | [] => True
  | kept _ :: cs => Framed cs
  | found as :: cs => Opens as ∧ (Shut as ∨ layer cs = []) ∧ Framed cs

theorem Framed.between (hS : isPrivateUse S) {s t u : Text} (h : Framed t u) :
    Between S s t u := by
  obtain ⟨⟨c, hc, hedge⟩, hend⟩ := h
  refine ⟨.inr fun d hd => ?_, .inl ?_⟩
  · rw [List.head?_append, hc] at hd
    exact Option.some.inj hd ▸ not_isMark_of_isEdge hS hedge
  · rcases hend with ⟨d, hd, hedge⟩ | rfl
    · exact .inl fun e he => Option.some.inj (hd.symm.trans he) ▸ not_isMark_of_isEdge hS hedge
    · exact seam_to_nil t

theorem spell_eq_nil_iff {as : Layer} : spell S as = [] ↔ as = [] := by
  cases as with
  | nil => simp
  | cons a as => cases a <;> simp

theorem framed_of_placed (hS : isPrivateUse S) {s : Text} {cs : List Cell}
    (h : Piece.Placed (fun _ => Framed) s (pieces S cs)) : Cell.Framed cs := by
  induction cs generalizing s with
  | nil => trivial
  | cons c cs ih =>
    cases c with
    | kept a => exact ih (Piece.placed_append.1 h).2
    | found as =>
      rw [pieces_found, Piece.placed_found_cons, sources_pieces] at h
      obtain ⟨⟨⟨d, hd, hopens⟩, hend⟩, h⟩ := h
      refine ⟨opens_of_head?_spell hS hd hopens, ?_, ih h⟩
      rw [spell_eq_nil_iff] at hend
      exact hend.imp_left fun ⟨e, he, hedge⟩ => shut_of_getLast?_spell hS he hedge

/-- **Framed stretches are found between atoms.** -/
theorem exists_framed_cells (hS : isPrivateUse S) {as : Layer} {ps : List Piece}
    (hps : Piece.sources ps = spell S as) (hp : Piece.Placed (fun _ => Framed) [] ps) :
    ∃ cs, layer cs = as ∧ pieces S cs = ps ∧ Cell.Framed cs := by
  obtain ⟨cs, rfl, rfl⟩ := exists_cells hps (hp.mono fun _ _ _ h => h.between hS)
  exact ⟨cs, rfl, rfl, framed_of_placed hS hp⟩

/-! ## Stores -/

/-- Layers that were put aside, the newest first. -/
abbrev Store := List (Kind × Layer)

/-- The texts of layers that were put aside. -/
def spellAll (S : Char) (es : Store) : List (Kind × Text) := es.map fun e => (e.1, spell S e.2)

@[simp] theorem length_spellAll (es : Store) : (spellAll S es).length = es.length := by
  simp [spellAll]

@[simp] theorem spellAll_nil : spellAll S [] = [] := rfl

@[simp] theorem spellAll_cons (kind : Kind) (new : Layer) (es : Store) :
    spellAll S ((kind, new) :: es) = (kind, spell S new) :: spellAll S es := rfl

/-- A stretch of a store is among the entries of its stash. -/
theorem mem_entriesOf {kind : Kind} {new : Layer} {newer older : Store} :
    (token S kind older.length, kind, spell S new) ∈
      entriesOf S (spellAll S (newer ++ (kind, new) :: older)) := by
  induction newer with
  | nil => simp [entriesOf]
  | cons e newer ih =>
    rw [List.cons_append, spellAll_cons, entriesOf]
    exact List.mem_append_left _ ih

/-- A layer of a kind was put aside under a number. -/
def HasEntry (es : Store) (kind : Kind) (i : Nat) : Prop :=
  ∃ newer new older, es = newer ++ (kind, new) :: older ∧ older.length = i

section
variable {es : Store} {kind : Kind} {i : Nat} {new : Layer}

theorem hasEntry_cons_self : HasEntry ((kind, new) :: es) kind es.length :=
  ⟨[], new, es, rfl, rfl⟩

theorem HasEntry.cons (h : HasEntry es kind i) (e : Kind × Layer) : HasEntry (e :: es) kind i := by
  obtain ⟨newer, new, older, rfl, hi⟩ := h
  exact ⟨e :: newer, new, older, rfl, hi⟩

theorem HasEntry.lt (h : HasEntry es kind i) : i < es.length := by
  obtain ⟨newer, new, older, rfl, rfl⟩ := h
  simp only [List.length_append, List.length_cons]
  omega

end

/-- Texts are those of one store of sound layers at most. -/
theorem spellAll_inj (hS : ¬ isTokenChar S) {es fs : Store} (he : ∀ e ∈ es, Sound S e.2)
    (hf : ∀ e ∈ fs, Sound S e.2) (h : spellAll S es = spellAll S fs) : es = fs := by
  induction es generalizing fs with
  | nil => exact (List.map_eq_nil_iff.1 h.symm).symm
  | cons e es ih =>
    cases fs with
    | nil => cases h
    | cons f fs =>
      obtain ⟨kind, as⟩ := e
      obtain ⟨kind', bs⟩ := f
      rw [List.forall_mem_cons] at he hf
      obtain ⟨hfirst, hrest⟩ := List.cons.inj h
      obtain ⟨rfl, hspell⟩ := Prod.mk.inj hfirst
      obtain rfl : as = bs := spell_inj hS he.1 hf.1 hspell
      rw [ih he.2 hf.2 hrest]

/-- The store after the found stretches of some cells were put aside. -/
def stored (kind : Kind) (cs : List Cell) (old : Store) : Store :=
  ((founds cs).map fun as => (kind, as)).reverse ++ old

@[simp] theorem stored_nil (kind : Kind) (old : Store) : stored kind [] old = old := rfl

@[simp] theorem stored_kept (kind : Kind) (a : Atom) (cs : List Cell) (old : Store) :
    stored kind (kept a :: cs) old = stored kind cs old := rfl

@[simp] theorem stored_found (kind : Kind) (as : Layer) (cs : List Cell) (old : Store) :
    stored kind (found as :: cs) old = stored kind cs ((kind, as) :: old) := by
  simp [stored]

theorem mem_stored {kind : Kind} {cs : List Cell} {old : Store} {e : Kind × Layer} :
    e ∈ stored kind cs old ↔ (∃ as ∈ founds cs, e = (kind, as)) ∨ e ∈ old := by
  simp [stored, eq_comm]

/-! ## Passes on cells -/

theorem hide_keep_append (kind : Kind) (s : Text) (ps : List Piece) (st : Stash) :
    Stash.hide kind (Piece.keep s ++ ps) st =
      (s ++ (Stash.hide kind ps st).1, (Stash.hide kind ps st).2) := by
  induction s with
  | nil => rfl
  | cons c s ih => simp [Piece.keep, Stash.hide] at ih ⊢; simp [ih]

/-- Where nothing is found, nothing is put aside. -/
theorem hide_keep (kind : Kind) (s : Text) (st : Stash) :
    Stash.hide kind (Piece.keep s) st = (s, st) := by
  have happend := hide_keep_append kind s [] st
  rwa [List.append_nil, Stash.hide, List.append_nil] at happend

theorem hide_append (kind : Kind) (ps qs : List Piece) (st : Stash) :
    Stash.hide kind (ps ++ qs) st =
      ((Stash.hide kind ps st).1 ++ (Stash.hide kind qs (Stash.hide kind ps st).2).1,
        (Stash.hide kind qs (Stash.hide kind ps st).2).2) := by
  induction ps generalizing st with
  | nil => rfl
  | cons p ps ih => cases p <;> simp [Stash.hide, ih]

/-- The entries of a stash after the found stretches of some pieces were put aside. -/
theorem exists_entries_hide (kind : Kind) (ps : List Piece) (st : Stash) :
    ∃ added, (Stash.hide kind ps st).2.entries = st.entries ++ added ∧
      added.map Prod.snd = (Piece.founds ps).map fun t => (kind, t) := by
  induction ps generalizing st with
  | nil => exact ⟨[], (List.append_nil _).symm, rfl⟩
  | cons q ps ih =>
    cases q with
    | kept c => exact ih st
    | found t =>
      obtain ⟨added, hentries, hadded⟩ := ih (st.put kind t).2
      refine ⟨(token st.sentinel kind st.size, kind, t) :: added, ?_, ?_⟩
      · have hput : (st.put kind t).2.entries =
            st.entries ++ [(token st.sentinel kind st.size, kind, t)] := rfl
        show (Stash.hide kind ps (st.put kind t).2).2.entries = _
        rw [hentries, hput, List.append_assoc, List.singleton_append]
      · rw [List.map_cons, hadded]
        rfl

/-- **Putting the found stretches of a layer aside.** -/
theorem hide_pieces (kind : Kind) (cs : List Cell) (old : Store) :
    Stash.hide kind (pieces S cs) ⟨S, spellAll S old⟩ =
      (spell S (hidden kind old.length cs), ⟨S, spellAll S (stored kind cs old)⟩) := by
  induction cs generalizing old with
  | nil => rfl
  | cons c cs ih =>
    cases c with
    | kept a =>
      rw [pieces_kept, hide_keep_append, ih old]
      rfl
    | found as =>
      have hput : (Stash.put kind (spell S as) ⟨S, spellAll S old⟩).2 =
        ⟨S, spellAll S ((kind, as) :: old)⟩ := rfl
      rw [pieces_found, Stash.hide]
      dsimp only
      rw [hput, ih]
      simp [Cell.hidden, Stash.put, Stash.size, token]

end

end MarkdownPrep.Stash
