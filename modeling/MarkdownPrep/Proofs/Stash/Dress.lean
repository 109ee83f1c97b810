import MarkdownPrep.Proofs.Delimiter.Redelimit
import MarkdownPrep.Proofs.Stash.Parts

/-!
# Layers in another dress

The tokens of a layer may be written with any private use character that the layer does not have,
and with any numbers (`Dress`). Of the text of a layer it can be seen in every dress alike where it
begins with a given text (`Dress.prefix_spell_iff`) and where a character that stands in no token
(`Plain`) comes first (`exists_takeWhile`).
-/

namespace MarkdownPrep.Stash

/-! ## Other numbers -/

/-- An atom with the number of a token changed. -/
def Atom.renumber (φ : Kind → Nat → Nat) : Atom → Atom
  | char c => char c
  | token kind i => token kind (φ kind i)

/-- A layer with the numbers of its tokens changed. -/
def renumber (φ : Kind → Nat → Nat) (as : Layer) : Layer := as.map (Atom.renumber φ)

section
variable {φ : Kind → Nat → Nat}

@[simp] theorem renumber_nil : renumber φ [] = [] := rfl

@[simp] theorem renumber_char_cons (c : Char) (as : Layer) :
    renumber φ (.char c :: as) = .char c :: renumber φ as := rfl

@[simp] theorem renumber_token_cons (kind : Kind) (i : Nat) (as : Layer) :
    renumber φ (.token kind i :: as) = .token kind (φ kind i) :: renumber φ as := rfl

@[simp] theorem renumber_append (as bs : Layer) :
    renumber φ (as ++ bs) = renumber φ as ++ renumber φ bs := List.map_append

@[simp] theorem renumber_plain (s : Text) : renumber φ (plain s) = plain s := by
  rw [renumber, plain, List.map_map]
  rfl

theorem sound_renumber {S : Char} {as : Layer} : Sound S (renumber φ as) ↔ Sound S as := by
  induction as with
  | nil => rfl
  | cons a as ih => cases a <;> simp_all [Sound]

/-- A layer stays the same if the numbers of its tokens do. -/
theorem renumber_eq_self {as : Layer} (h : ∀ kind i, .token kind i ∈ as → φ kind i = i) :
    renumber φ as = as := by
  induction as with
  | nil => rfl
  | cons a as ih =>
    have ih := ih fun kind i hm => h kind i (List.mem_cons_of_mem _ hm)
    cases a with
    | char c => rw [renumber_char_cons, ih]
    | token kind i => rw [renumber_token_cons, ih, h kind i List.mem_cons_self]

namespace Cell

/-- Cells with the numbers of their tokens changed. -/
def renumber (φ : Kind → Nat → Nat) (cs : List Cell) : List Cell :=
  cs.map fun
    | kept a => kept (a.renumber φ)
    | found as => found (Stash.renumber φ as)

variable {cs ds : List Cell}

@[simp] theorem renumber_kept (a : Atom) :
    renumber φ (kept a :: cs) = kept (a.renumber φ) :: renumber φ cs := rfl

@[simp] theorem renumber_found (as : Layer) :
    renumber φ (found as :: cs) = found (Stash.renumber φ as) :: renumber φ cs := rfl

@[simp] theorem renumber_append : renumber φ (cs ++ ds) = renumber φ cs ++ renumber φ ds :=
  List.map_append

@[simp] theorem layer_renumber : layer (renumber φ cs) = Stash.renumber φ (layer cs) := by
  induction cs with
  | nil => rfl
  | cons c cs ih =>
    cases c with
    | kept a => exact congrArg (a.renumber φ :: ·) ih
    | found as => rw [renumber_found, layer_found, ih, layer_found, Stash.renumber_append]

@[simp] theorem founds_renumber :
    founds (renumber φ cs) = (founds cs).map (Stash.renumber φ) := by
  induction cs with
  | nil => rfl
  | cons c cs ih =>
    cases c with
    | kept a => exact ih
    | found as => exact congrArg (Stash.renumber φ as :: ·) ih

/-- What was found gets its tokens from another number on. -/
theorem hidden_renumber {kind : Kind} {m n : Nat}
    (h : ∀ k < (founds cs).length, φ kind (m + k) = n + k) :
    hidden kind n (renumber φ cs) = Stash.renumber φ (hidden kind m cs) := by
  induction cs generalizing m n with
  | nil => rfl
  | cons c cs ih =>
    cases c with
    | kept a => exact congrArg (a.renumber φ :: ·) (ih h)
    | found as =>
      have hfirst : φ kind m = n := h 0 (Nat.succ_pos _)
      have hrest := ih (m := m + 1) (n := n + 1) fun k hk => by
        rw [Nat.add_right_comm, Nat.add_assoc, h (k + 1) (Nat.succ_lt_succ hk)]
        omega
      rw [renumber_found, hidden, hrest, hidden, renumber_token_cons, hfirst]

/-- **Cells are known by their layer and their pieces.** -/
theorem eq_of_pieces {S : Char} (hlayer : layer cs = layer ds)
    (hpieces : pieces S cs = pieces S ds) : cs = ds := by
  have hne : ∀ (a : Atom) (as : Layer) (ps qs : List Piece),
      Piece.keep (a.text S) ++ ps ≠ .found (spell S as) :: qs := by
    intro a as ps qs h
    cases a <;> cases h
  induction cs generalizing ds with
  | nil =>
    cases ds with
    | nil => rfl
    | cons d ds =>
      cases d with
      | kept a => cases hlayer
      | found as => cases hpieces
  | cons c cs ih =>
    cases c with
    | kept a =>
      cases ds with
      | nil => cases hlayer
      | cons d ds =>
        cases d with
        | found as => exact absurd hpieces (hne _ _ _ _)
        | kept b =>
          obtain ⟨rfl, hl⟩ := List.cons.inj hlayer
          rw [ih hl (List.append_cancel_left hpieces)]
    | found as =>
      cases ds with
      | nil => cases hpieces
      | cons d ds =>
        cases d with
        | kept a => exact absurd hpieces.symm (hne _ _ _ _)
        | found bs =>
          obtain ⟨htext, hp⟩ := List.cons.inj hpieces
          obtain ⟨rfl, hl⟩ := append_inj_of_spell hlayer (Piece.found.inj htext)
          rw [ih hl hp]

/-! ## Pieces of characters -/

/-- Pieces of a text without tokens as cells. -/
def ofPieces (ps : List Piece) : List Cell :=
  ps.map fun
    | .kept c => kept (.char c)
    | .found t => found (plain t)

section
variable {ps : List Piece}

@[simp] theorem ofPieces_kept_cons (c : Char) :
    ofPieces (.kept c :: ps) = kept (.char c) :: ofPieces ps := rfl

@[simp] theorem ofPieces_found_cons (t : Text) :
    ofPieces (.found t :: ps) = found (plain t) :: ofPieces ps := rfl

@[simp] theorem layer_ofPieces : layer (ofPieces ps) = plain (Piece.sources ps) := by
  induction ps with
  | nil => rfl
  | cons p ps ih => cases p <;> simp [ih, Piece.source]

@[simp] theorem founds_ofPieces : founds (ofPieces ps) = (Piece.founds ps).map plain := by
  induction ps with
  | nil => rfl
  | cons p ps ih =>
    cases p with
    | kept c => exact ih
    | found t => exact congrArg (plain t :: ·) ih

@[simp] theorem pieces_ofPieces (S : Char) : pieces S (ofPieces ps) = ps := by
  induction ps with
  | nil => rfl
  | cons p ps ih =>
    cases p with
    | kept c => exact congrArg (.kept c :: ·) ih
    | found t => rw [ofPieces_found_cons, pieces_found, ih, spell_plain]

@[simp] theorem renumber_ofPieces : renumber φ (ofPieces ps) = ofPieces ps := by
  induction ps with
  | nil => rfl
  | cons p ps ih =>
    cases p with
    | kept c => exact congrArg (kept (.char c) :: ·) ih
    | found t => rw [ofPieces_found_cons, renumber_found, ih, renumber_plain]

end

end Cell

end

/-! ## Dresses -/

/-- A way to write tokens: with a sentinel, and with a number for that of each. -/
structure Dress where
  sentinel : Char
  number : Kind → Nat → Nat

namespace Dress

variable (d : Dress)

/-- The text of a layer in a dress. -/
def spell (as : Layer) : Text := Stash.spell d.sentinel (renumber d.number as)

/-- The pieces of the text of a layer in a dress. -/
def pieces (cs : List Cell) : List Piece := Cell.pieces d.sentinel (Cell.renumber d.number cs)

/-- The layer does not have the sentinel, which is a private use character. -/
def Fits (as : Layer) : Prop := isPrivateUse d.sentinel ∧ Sound d.sentinel as

/-- The last character of an atom. -/
def last : Option Atom → Option Char
  | none => none
  | some (.char c) => some c
  | some (.token _ _) => some d.sentinel

@[simp] theorem spell_nil : d.spell [] = [] := rfl

@[simp] theorem spell_append (as bs : Layer) : d.spell (as ++ bs) = d.spell as ++ d.spell bs := by
  simp [spell]

@[simp] theorem spell_plain (s : Text) : d.spell (plain s) = s := by simp [spell]

@[simp] theorem spell_char_cons (c : Char) (as : Layer) :
    d.spell (.char c :: as) = c :: d.spell as := rfl

theorem spell_token_cons (kind : Kind) (i : Nat) (as : Layer) :
    d.spell (.token kind i :: as) =
      token d.sentinel kind (d.number kind i) ++ d.spell as := rfl

theorem spell_cons (a : Atom) (as : Layer) : d.spell (a :: as) = d.spell [a] ++ d.spell as :=
  d.spell_append [a] as

theorem spell_eq_nil_iff {as : Layer} : d.spell as = [] ↔ as = [] := by
  rw [spell, Stash.spell_eq_nil_iff, renumber, List.map_eq_nil_iff]

/-- Tokens with their own numbers. -/
def own (S : Char) : Dress := ⟨S, fun _ i => i⟩

@[simp] theorem spell_own (S : Char) (as : Layer) : (own S).spell as = Stash.spell S as := by
  have hself : renumber (own S).number as = as := renumber_eq_self fun _ _ _ => rfl
  rw [spell, hself]
  rfl

@[simp] theorem sources_pieces (cs : List Cell) :
    Piece.sources (d.pieces cs) = d.spell (Cell.layer cs) := by
  rw [pieces, Cell.sources_pieces, Cell.layer_renumber, spell]

@[simp] theorem pieces_nil : d.pieces [] = [] := rfl

@[simp] theorem pieces_append (cs ds : List Cell) :
    d.pieces (cs ++ ds) = d.pieces cs ++ d.pieces ds := by simp [pieces]

theorem pieces_kept (a : Atom) (cs : List Cell) :
    d.pieces (.kept a :: cs) = Piece.keep (d.spell [a]) ++ d.pieces cs := by
  cases a <;> simp [pieces, spell, Atom.renumber, Atom.text, token]

theorem pieces_found (as : Layer) (cs : List Cell) :
    d.pieces (.found as :: cs) = .found (d.spell as) :: d.pieces cs := rfl

theorem getLast?_spell (as : Layer) : (d.spell as).getLast? = d.last as.getLast? := by
  rcases as.eq_nil_or_concat with rfl | ⟨as, a, rfl⟩
  · rfl
  · rw [List.concat_eq_append, spell_append, List.getLast?_append, List.getLast?_concat]
    cases a with
    | char c => rfl
    | token kind i =>
      rw [spell_token_cons, spell_nil, List.append_nil, token, List.getLast?_concat]
      rfl

variable {d}

theorem Fits.left {as bs : Layer} (h : d.Fits (as ++ bs)) : d.Fits as :=
  ⟨h.1, (sound_append.1 h.2).1⟩

theorem Fits.right {as bs : Layer} (h : d.Fits (as ++ bs)) : d.Fits bs :=
  ⟨h.1, (sound_append.1 h.2).2⟩

theorem Fits.tail {a : Atom} {as : Layer} (h : d.Fits (a :: as)) : d.Fits as :=
  ⟨h.1, h.2.of_cons⟩

end Dress

/-! ## Atoms that are seen in every dress -/

namespace Dress

variable {d : Dress}

theorem head?_spell (d : Dress) (as : Layer) : (d.spell as).head? = d.last as.head? := by
  cases as with
  | nil => rfl
  | cons a as => cases a <;> rfl

theorem last_eq_some_iff {c : Char} (h : c ≠ d.sentinel) {b : Option Atom} :
    d.last b = some c ↔ b = some (.char c) := by
  rcases b with _ | ⟨b⟩ | ⟨kind, i⟩ <;> simp [last, Ne.symm h]

/-- Characters at the front of a text are at the front of its layer. -/
theorem prefix_spell_iff {s : Text} {as : Layer} (hs : d.sentinel ∉ s) :
    s <+: d.spell as ↔ plain s <+: as := by
  induction s generalizing as with
  | nil => simp
  | cons c s ih =>
    rw [List.mem_cons, not_or] at hs
    cases as with
    | nil => simp
    | cons a as =>
      cases a with
      | char b => simp [ih hs.2]
      | token kind i => simp [spell_token_cons, token, Ne.symm hs.1]

end Dress

theorem Dress.sentinel_mem_spell {d : Dress} {kind : Kind} {i : Nat} {as : Layer}
    (h : .token kind i ∈ as) : d.sentinel ∈ d.spell as := by
  obtain ⟨bs, cs, rfl⟩ := List.append_of_mem h
  rw [Dress.spell_append, Dress.spell_token_cons]
  simp [token]

/-- A character that stands in no token. -/
def Plain (c : Char) : Prop := ∀ S, isPrivateUse S → ¬ IsMark S c

theorem plain_of_isSign {c : Char} (h : isSign c) : Plain c := fun _ hS => not_isMark_of_isSign hS h

theorem plain_of_isEdge {c : Char} (h : isEdge c) : Plain c := fun _ hS => not_isMark_of_isEdge hS h

theorem Plain.ne {c S : Char} (h : Plain c) (hS : isPrivateUse S) : c ≠ S :=
  fun heq => h S hS (.inl heq)

theorem Plain.not_mem_token {c S : Char} (h : Plain c) (hS : isPrivateUse S) (kind : Kind) (i : Nat) :
    c ∉ token S kind i := fun hm => h S hS (isMark_of_mem_token hm)

/-- A character that stands in no token is one of the layer's own. -/
theorem Dress.mem_spell_iff {d : Dress} {c : Char} (hc : Plain c) (hS : isPrivateUse d.sentinel) {as : Layer} :
    c ∈ d.spell as ↔ .char c ∈ as := by
  refine ⟨fun h => ?_, fun h => mem_spell_of_char_mem (List.mem_map_of_mem h)⟩
  obtain ⟨a, ha, hm⟩ := List.mem_flatMap.1 h
  obtain ⟨b, hb, rfl⟩ := List.mem_map.1 ha
  cases b with
  | char e => exact List.mem_singleton.1 hm ▸ hb
  | token kind i => exact absurd hm (hc.not_mem_token hS _ _)

/-- The text before a character, and the text from it on, are the same in every dress. -/
theorem exists_takeWhile {c : Char} (hc : Plain c) (as : Layer) : ∃ bs cs, as = bs ++ cs ∧
    (∀ b, cs.head? = some b → b = .char c) ∧ ∀ d : Dress, isPrivateUse d.sentinel →
      (d.spell as).takeWhile (· ≠ c) = d.spell bs ∧
        (d.spell as).dropWhile (· ≠ c) = d.spell cs := by
  induction as with
  | nil => exact ⟨[], [], rfl, by simp, fun _ _ => ⟨rfl, rfl⟩⟩
  | cons a as ih =>
    by_cases ha : a = .char c
    · refine ⟨[], a :: as, rfl, fun b hb => ?_, fun d _ => ?_⟩
      · rw [← Option.some.inj hb, ha]
      · subst ha
        simp
    · obtain ⟨bs, cs, rfl, hcs, hd⟩ := ih
      refine ⟨a :: bs, cs, rfl, hcs, fun d hS => ?_⟩
      have hpass : ∀ b ∈ d.spell [a], decide (b ≠ c) := by
        intro b hb
        refine decide_eq_true fun heq => ?_
        subst heq
        cases a with
        | char e => exact ha (congrArg _ (List.mem_singleton.1 hb).symm)
        | token kind i =>
          rw [Dress.spell_token_cons, Dress.spell_nil, List.append_nil] at hb
          exact hc.not_mem_token hS _ _ hb
      obtain ⟨htake, hdrop⟩ := hd d hS
      rw [d.spell_cons a (bs ++ cs), d.spell_cons a bs, List.takeWhile_append_of_pos hpass,
        List.dropWhile_append_of_pos hpass, htake, hdrop]
      exact ⟨rfl, rfl⟩

end MarkdownPrep.Stash
