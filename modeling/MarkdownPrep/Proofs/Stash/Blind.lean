import MarkdownPrep.Proofs.Dollar.Reading
import MarkdownPrep.Proofs.Stash.Dress
import MarkdownPrep.Proofs.Text.CharClass

/-!
# Passes that do not see the dress

A recogniser is blind to the dress of a layer if it never starts inside a token and takes off the
same atoms in every dress (`Blind`). Then a cut makes the same cells in every dress
(`Blind.exists_cells`): it is `Uniform`. A pass that changes what such a cut finds makes the text of
the same layer in every dress: it `Rewrites` layers. So what a pass does to a text does not depend
on what the tokens in it are called.
-/

namespace MarkdownPrep.Stash

/-! ## Recognisers that do not see the dress -/

/-- A recogniser, given the sentinel, takes nothing off inside a token, and otherwise the same atoms
in each dress. What it finds satisfies `P`. -/
structure Blind (P : Layer → Prop) (r : Char → Recogniser) : Prop where
  honest : ∀ S, (r S).Honest
  skips : ∀ S b c s, isPrivateUse S → IsMark S b → IsMark S c → r S (some b) (c :: s) = none
  reads : ∀ (b : Option Atom) (as : Layer), as ≠ [] →
    (∀ d : Dress, d.Fits (b.toList ++ as) → r d.sentinel (d.last b) (d.spell as) = none) ∨
      ∃ cs bs, as = Cell.layer cs ++ bs ∧ Cell.layer cs ≠ [] ∧ (∀ m ∈ Cell.founds cs, P m) ∧
        ∀ d : Dress, d.Fits (b.toList ++ as) →
          r d.sentinel (d.last b) (d.spell as) = some (d.pieces cs)

section
variable {P : Layer → Prop} {r : Char → Recogniser}

/-- Inside a token nothing is taken off. -/
theorem Blind.cutAfter_token (h : Blind P r) {S : Char} (hS : isPrivateUse S) {kind : Kind} {i : Nat}
    {x s : Text} (hnone : r S x.getLast? (token S kind i ++ s) = none) :
    Text.cutAfter (r S) x (token S kind i ++ s) =
      Piece.keep (token S kind i) ++ Text.cutAfter (r S) (x ++ token S kind i) s := by
  refine Text.cutAfter_append_of_none fun y c w hy => ?_
  have hmark : ∀ b ∈ y ++ c :: w, IsMark S b := fun b hb => isMark_of_mem_token (hy ▸ hb)
  rcases y.eq_nil_or_concat with rfl | ⟨y, b, rfl⟩
  · rw [List.append_nil]
    rwa [hy] at hnone
  · rw [List.concat_eq_append, List.getLast?_append, List.getLast?_concat]
    exact h.skips S b c _ hS (hmark b (by simp)) (hmark c (by simp))

/-- What fits a layer fits a part of it with the atom before it. -/
theorem Dress.Fits.getLast? {d : Dress} {xs as : Layer} (h : d.Fits (xs ++ as)) :
    d.Fits (xs.getLast?.toList ++ as) := by
  rcases xs.eq_nil_or_concat with rfl | ⟨xs, x, rfl⟩
  · exact h
  · rw [List.concat_eq_append, List.append_assoc] at h
    simpa using h.right

/-- Where nothing is taken off, the first atom is kept. -/
theorem Blind.cutAfter_kept (h : Blind P r) {d : Dress} (hS : isPrivateUse d.sentinel)
    {xs as : Layer} {a : Atom} {cs : List Cell}
    (hnone : r d.sentinel (d.last xs.getLast?) (d.spell (a :: as)) = none)
    (hcut : Text.cutAfter (r d.sentinel) (d.spell (xs ++ [a])) (d.spell as) = d.pieces cs) :
    Text.cutAfter (r d.sentinel) (d.spell xs) (d.spell (a :: as)) = d.pieces (.kept a :: cs) := by
  rw [← Dress.getLast?_spell] at hnone
  rw [Dress.spell_append] at hcut
  rw [Dress.pieces_kept, ← hcut]
  cases a with
  | char c => exact Text.cutAfter_of_none hnone
  | token kind i =>
    have hone : d.spell [.token kind i] = token d.sentinel kind (d.number kind i) := by
      rw [Dress.spell_token_cons, Dress.spell_nil, List.append_nil]
    rw [Dress.spell_token_cons] at hnone ⊢
    rw [hone]
    exact h.cutAfter_token hS hnone

/-- What is taken off becomes the first cells. -/
theorem Blind.cutAfter_taken (h : Blind P r) {d : Dress} {xs bs : Layer} {cs ds : List Cell}
    (hsome : r d.sentinel (d.last xs.getLast?) (d.spell (Cell.layer cs ++ bs)) = some (d.pieces cs))
    (hcut : Text.cutAfter (r d.sentinel) (d.spell (xs ++ Cell.layer cs)) (d.spell bs) = d.pieces ds) :
    Text.cutAfter (r d.sentinel) (d.spell xs) (d.spell (Cell.layer cs ++ bs)) =
      d.pieces (cs ++ ds) := by
  rw [← Dress.getLast?_spell] at hsome
  rw [Dress.spell_append] at hsome hcut ⊢
  rw [Dress.pieces_append, ← hcut]
  exact Text.cutAfter_of_some (h.honest _) hsome (d.sources_pieces cs)

/-- **A cut makes the same cells in every dress.** -/
theorem Blind.exists_cells (h : Blind P r) (as : Layer) :
    ∃ cs, Cell.layer cs = as ∧ (∀ m ∈ Cell.founds cs, P m) ∧
      ∀ d : Dress, d.Fits as → Text.cut (r d.sentinel) (d.spell as) = d.pieces cs := by
  have key : ∀ (n : Nat) (xs as : Layer), as.length = n → ∃ cs, Cell.layer cs = as ∧
      (∀ m ∈ Cell.founds cs, P m) ∧ ∀ d : Dress, d.Fits (xs ++ as) →
        Text.cutAfter (r d.sentinel) (d.spell xs) (d.spell as) = d.pieces cs := by
    intro n
    induction n using Nat.strongRecOn with
    | ind n ih =>
      rintro xs as rfl
      rcases eq_or_ne as [] with rfl | hne
      · exact ⟨[], rfl, by simp, fun _ _ => rfl⟩
      rcases h.reads xs.getLast? as hne with hnone | ⟨cs, bs, rfl, hcs, hP, hsome⟩
      · obtain ⟨a, as, rfl⟩ := List.exists_cons_of_ne_nil hne
        obtain ⟨cs, rfl, hP, hcut⟩ := ih _ (Nat.lt_succ_self _) (xs ++ [a]) as rfl
        exact ⟨.kept a :: cs, rfl, hP, fun d hd =>
          h.cutAfter_kept hd.1 (hnone d hd.getLast?) (hcut d (by simpa using hd))⟩
      · have hlt : bs.length < (Cell.layer cs ++ bs).length := by
          rw [List.length_append]
          have := List.length_pos_iff.2 hcs
          omega
        obtain ⟨ds, rfl, hP', hcut⟩ := ih _ hlt (xs ++ Cell.layer cs) bs rfl
        refine ⟨cs ++ ds, Cell.layer_append, ?_, fun d hd =>
          h.cutAfter_taken (hsome d hd.getLast?) (hcut d (by simpa using hd))⟩
        rw [Cell.founds_append, List.forall_mem_append]
        exact ⟨hP, hP'⟩
  obtain ⟨cs, hcs, hP, hcut⟩ := key _ [] as rfl
  exact ⟨cs, hcs, hP, hcut⟩

/-- A token stops readers. -/
theorem Dress.stops_spell {d : Dress} (hS : isPrivateUse d.sentinel) {bs : Layer}
    (h : bs = [] ∨ ∃ kind i cs, bs = .token kind i :: cs) : Text.Stops (d.spell bs) := by
  intro c hc
  obtain rfl | ⟨kind, i, cs, rfl⟩ := h
  · cases hc
  · exact Option.some.inj hc ▸ hS

/-- A recogniser of one stretch that begins with a character that stands in no token. -/
theorem blind_of_head {r : Recogniser} {c : Char} (hc : Plain c) (hr : r.Honest)
    (hhead : ∀ b s ps, r b s = some ps → s.head? = some c)
    (hreads : ∀ (b : Option Atom) (as : Layer),
      (∀ d : Dress, d.Fits (b.toList ++ .char c :: as) → r (d.last b) (c :: d.spell as) = none) ∨
        ∃ m bs, as = m ++ bs ∧ P (.char c :: m) ∧ ∀ d : Dress, d.Fits (b.toList ++ .char c :: as) →
          r (d.last b) (c :: d.spell as) = some [.found (c :: d.spell m)]) :
    Blind P fun _ => r where
  honest _ := hr
  skips S b e s hS _ he := by
    refine Option.eq_none_iff_forall_ne_some.2 fun ps hps => hc S hS ?_
    obtain rfl : e = c := Option.some.inj (hhead _ _ _ hps)
    exact he
  reads b as hne := by
    obtain ⟨a, as, rfl⟩ := List.exists_cons_of_ne_nil hne
    by_cases ha : a = .char c
    · subst ha
      rcases hreads b as with hnone | ⟨m, bs, rfl, hP, hsome⟩
      · exact .inl hnone
      · exact .inr ⟨[.found (.char c :: m)], bs, by simp, by simp, by simpa using hP, hsome⟩
    · refine .inl fun d hd => Option.eq_none_iff_forall_ne_some.2 fun ps hps => ?_
      have hfirst := hhead _ _ _ hps
      rw [Dress.head?_spell, Dress.last_eq_some_iff (hc.ne hd.1)] at hfirst
      exact ha (Option.some.inj hfirst)

end

/-! ## Uniform passes -/

/-- A pass that cuts a text, given the sentinel, makes the same cells in every dress. What it finds
satisfies `P`. -/
def Uniform (P : Layer → Prop) (f : Char → Text → List Piece) : Prop :=
  ∀ as, ∃ cs, Cell.layer cs = as ∧ (∀ m ∈ Cell.founds cs, P m) ∧
    ∀ d : Dress, d.Fits as → f d.sentinel (d.spell as) = d.pieces cs

/-- A pass that changes a text, given the sentinel, makes the text of the same layer in every
dress. -/
def Rewrites (f : Char → Text → Text) : Prop :=
  ∀ as, ∃ bs, Retouched as bs ∧ ∀ d : Dress, d.Fits as → f d.sentinel (d.spell as) = d.spell bs

section
variable {P Q : Layer → Prop} {f : Char → Text → List Piece}

/-- The pieces of a layer in which nothing was found. -/
theorem Dress.pieces_map_kept (d : Dress) (as : Layer) :
    d.pieces (as.map .kept) = Piece.keep (d.spell as) := by
  induction as with
  | nil => rfl
  | cons a as ih =>
    rw [List.map_cons, pieces_kept, ih, d.spell_cons a as]
    exact List.map_append.symm

@[simp] theorem Cell.layer_map_kept (as : Layer) : layer (as.map kept) = as := by
  induction as with
  | nil => rfl
  | cons a as ih => exact congrArg (a :: ·) ih

@[simp] theorem Cell.founds_map_kept (as : Layer) : founds (as.map kept) = [] := by
  induction as with
  | nil => rfl
  | cons a as ih => exact ih

/-- What is found by chance of no dress is kept by chance of none. -/
theorem Uniform.retain (h : Uniform P f) {p : Char → Text → Bool}
    (hp : ∀ m, P m → (Q m ∧ ∀ d : Dress, d.Fits m → p d.sentinel (d.spell m)) ∨
      ∀ d : Dress, d.Fits m → p d.sentinel (d.spell m) = false) :
    Uniform Q fun S s => Piece.retain (p S) (f S s) := by
  have key : ∀ cs, (∀ m ∈ Cell.founds cs, P m) → ∃ ds, Cell.layer ds = Cell.layer cs ∧
      (∀ m ∈ Cell.founds ds, Q m) ∧ ∀ d : Dress, d.Fits (Cell.layer cs) →
        Piece.retain (p d.sentinel) (d.pieces cs) = d.pieces ds := by
    intro cs
    induction cs with
    | nil => exact fun _ => ⟨[], rfl, by simp, fun _ _ => rfl⟩
    | cons c cs ih =>
      intro hP
      cases c with
      | kept a =>
        obtain ⟨ds, hds, hQ, hd⟩ := ih hP
        refine ⟨.kept a :: ds, by rw [Cell.layer_kept, Cell.layer_kept, hds], hQ, fun d hfits => ?_⟩
        rw [Dress.pieces_kept, Dress.pieces_kept, ← hd d hfits.tail, Piece.retain_append,
          Piece.retain_keep]
      | found m =>
        rw [Cell.founds_found, List.forall_mem_cons] at hP
        obtain ⟨ds, hds, hQ, hd⟩ := ih hP.2
        rcases hp m hP.1 with ⟨hm, hyes⟩ | hno
        · refine ⟨.found m :: ds, by rw [Cell.layer_found, Cell.layer_found, hds],
            List.forall_mem_cons.2 ⟨hm, hQ⟩, fun d hfits => ?_⟩
          rw [Dress.pieces_found, Dress.pieces_found, Piece.retain_found_cons (hyes d hfits.left),
            hd d hfits.right]
        · refine ⟨m.map .kept ++ ds, by simp [hds], by simpa using hQ, fun d hfits => ?_⟩
          rw [Dress.pieces_found, Dress.pieces_append, Dress.pieces_map_kept, ← hd d hfits.right,
            Piece.retain_found_cons_of_not (hno d hfits.left)]
  intro as
  obtain ⟨cs, rfl, hP, hcs⟩ := h as
  obtain ⟨ds, hds, hQ, hd⟩ := key cs hP
  exact ⟨ds, hds, hQ, fun d hfits => by rw [← hd d hfits, ← hcs d hfits]⟩

/-- **A pass that changes what a uniform cut finds rewrites layers**, if it makes the same of each
stretch in every dress. -/
theorem Uniform.mapFound (h : Uniform P f) {g : Text → Text}
    (hg : ∀ m, P m → ∃ bs, Retouched m bs ∧ ∀ d : Dress, d.Fits m → g (d.spell m) = d.spell bs) :
    Rewrites fun S s => Piece.mapFound g (f S s) := by
  have key : ∀ cs, (∀ m ∈ Cell.founds cs, P m) → ∃ bs, Retouched (Cell.layer cs) bs ∧
      ∀ d : Dress, d.Fits (Cell.layer cs) → Piece.mapFound g (d.pieces cs) = d.spell bs := by
    intro cs
    induction cs with
    | nil => exact fun _ => ⟨[], .refl [], fun _ _ => rfl⟩
    | cons c cs ih =>
      intro hP
      cases c with
      | kept a =>
        obtain ⟨bs, hr, hd⟩ := ih hP
        refine ⟨a :: bs, (Retouched.refl [a]).append hr, fun d hfits => ?_⟩
        rw [Dress.pieces_kept, Piece.mapFound_append, Piece.mapFound_keep, hd d hfits.tail,
          Dress.spell_cons d a bs]
      | found m =>
        rw [Cell.founds_found, List.forall_mem_cons] at hP
        obtain ⟨bs, hr, hd⟩ := ih hP.2
        obtain ⟨ms, hr', hd'⟩ := hg m hP.1
        refine ⟨ms ++ bs, hr'.append hr, fun d hfits => ?_⟩
        rw [Dress.pieces_found, Piece.mapFound_found_cons, hd' d hfits.left, hd d hfits.right,
          Dress.spell_append]
  intro as
  obtain ⟨cs, rfl, hP, hcs⟩ := h as
  obtain ⟨bs, hr, hd⟩ := key cs hP
  exact ⟨bs, hr, fun d hfits => by rw [← hd d hfits, ← hcs d hfits]⟩

theorem rewrites_id : Rewrites fun _ s => s := fun as => ⟨as, .refl as, fun _ _ => rfl⟩

/-- One pass after the other. -/
theorem Rewrites.comp {f g : Char → Text → Text} (hf : Rewrites f) (hg : Rewrites g) :
    Rewrites fun S s => g S (f S s) := by
  intro as
  obtain ⟨bs, hbs, hd⟩ := hf as
  obtain ⟨cs, hcs, hd'⟩ := hg bs
  refine ⟨cs, hbs.trans hcs, fun d hfits => ?_⟩
  show g d.sentinel (f d.sentinel (d.spell as)) = _
  rw [hd d hfits]
  exact hd' d ⟨hfits.1, hbs.sound (not_isSign_of_isPrivateUse hfits.1) hfits.2⟩

end

end MarkdownPrep.Stash
