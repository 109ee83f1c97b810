import Mathlib.Logic.Relation
import MarkdownPrep.Proofs.Stash.GiveBack
import MarkdownPrep.Proofs.Text.Ends

/-!
# Retouching

The passes that change a text change it in its signs only: dollars, backslashes, brackets,
parentheses and newlines are put in, or take the place of others. `Retouched as bs` says that the
layer `bs` comes from `as` by such changes. Then the rest of the two layers is the same
(`Retouched.rest_eq`), tokens included; no body of a token comes about (`Retouched.clean`), since
signs are never just dropped; and a layer stays a retouched one when stretches that were put aside
come back, be it retouched (`Retouched.giveBackIn`).
-/

namespace MarkdownPrep

/-- The characters that the passes put in and take out. -/
def isSign (c : Char) : Bool :=
  c = '$' || c = '\\' || c = '[' || c = ']' || c = '(' || c = ')' || c = '\n'

/-- A text without its signs. -/
def Text.rest (s : Text) : Text := s.filter (!isSign ·)

@[simp] theorem Text.rest_append (s t : Text) : Text.rest (s ++ t) = s.rest ++ t.rest := by
  simp [Text.rest]

/-- A text of signs. -/
def AllSigns (s : Text) : Prop := ∀ c ∈ s, isSign c

instance (s : Text) : Decidable (AllSigns s) := decidable_of_iff (s.all isSign) List.all_eq_true

theorem AllSigns.rest_eq_nil {s : Text} (h : AllSigns s) : Text.rest s = [] := by
  simpa [Text.rest, AllSigns] using h

theorem isSign_iff {c : Char} : isSign c ↔
    c = '$' ∨ c = '\\' ∨ c = '[' ∨ c = ']' ∨ c = '(' ∨ c = ')' ∨ c = '\n' := by
  simp [isSign, or_assoc]

/-- Delimiters are signs. -/
def IsDelimiter (s : Text) : Prop := s ≠ [] ∧ AllSigns s

instance (s : Text) : Decidable (IsDelimiter s) := inferInstanceAs (Decidable (_ ∧ _))

namespace Stash

theorem not_isMark_of_isSign {S c : Char} (hS : isPrivateUse S) (h : isSign c) :
    ¬ IsMark S c := by
  rintro (rfl | hc)
  · rcases isSign_iff.1 h with rfl | rfl | rfl | rfl | rfl | rfl | rfl <;> revert hS <;> decide
  · rcases isSign_iff.1 h with rfl | rfl | rfl | rfl | rfl | rfl | rfl <;> revert hc <;> decide

/-- The signs `old` in a layer become the signs `new`, which are not just white space if there are
any in `old`, and do not end in a backslash. -/
inductive Retouch : Layer → Layer → Prop
  | mk (x y : Layer) (old new : Text) (hold : AllSigns old) (hnew : AllSigns new)
      (hne : old = [] ∨ Text.Visible new) (hlast : new.getLast? ≠ some '\\') :
      Retouch (x ++ (plain old ++ y)) (x ++ (plain new ++ y))

/-- The one layer becomes the other as signs are changed. -/
def Retouched : Layer → Layer → Prop := Relation.ReflTransGen Retouch

/-- The atoms of a layer that are no signs. -/
def rest (as : Layer) : Layer :=
  as.filter fun
    | .char c => !isSign c
    | .token _ _ => true

section
variable {as bs cs : Layer}

@[simp] theorem rest_append (as bs : Layer) : rest (as ++ bs) = rest as ++ rest bs := by
  simp [rest]

@[simp] theorem rest_plain (s : Text) : rest (plain s) = plain s.rest := by
  induction s with
  | nil => rfl
  | cons c s ih =>
    simp only [rest, plain, Text.rest, List.map_cons, List.filter_cons] at ih ⊢
    split <;> simp [ih]

theorem rest_sign_cons {c : Char} (h : isSign c) (as : Layer) :
    rest (.char c :: as) = rest as := by simp [rest, h]

theorem rest_char_cons {c : Char} (h : ¬ isSign c) (as : Layer) :
    rest (.char c :: as) = .char c :: rest as := by simp [rest, h]

@[simp] theorem rest_token_cons (kind : Kind) (i : Nat) (as : Layer) :
    rest (.token kind i :: as) = .token kind i :: rest as := rfl

/-- What is no sign in the text of a layer. -/
theorem rest_spell {S : Char} (hS : isPrivateUse S) (as : Layer) :
    (spell S as).rest = spell S (rest as) := by
  induction as with
  | nil => rfl
  | cons a as ih =>
    cases a with
    | char c =>
      rw [spell_char_cons, ← List.singleton_append, Text.rest_append, ih]
      by_cases hc : isSign c
      · rw [rest_sign_cons hc, AllSigns.rest_eq_nil (by simpa [AllSigns] using hc), List.nil_append]
      · rw [rest_char_cons hc, spell_char_cons]
        simp [Text.rest, hc]
    | token kind i =>
      have htok : (token S kind i).rest = token S kind i := List.filter_eq_self.2 fun c hc => by
        simpa using fun hsign => not_isMark_of_isSign hS hsign (isMark_of_mem_token hc)
      have hspell : ∀ bs, spell S (.token kind i :: bs) = token S kind i ++ spell S bs :=
        fun bs => rfl
      rw [rest_token_cons, hspell, hspell, Text.rest_append, htok, ih]

@[refl] theorem Retouched.refl (as : Layer) : Retouched as as := Relation.ReflTransGen.refl

theorem Retouch.retouched (h : Retouch as bs) : Retouched as bs := Relation.ReflTransGen.single h

theorem Retouched.trans (h : Retouched as bs) (h' : Retouched bs cs) : Retouched as cs :=
  Relation.ReflTransGen.trans h h'

theorem Retouch.append (x y : Layer) (h : Retouch as bs) :
    Retouch (x ++ as ++ y) (x ++ bs ++ y) := by
  obtain ⟨u, v, old, new, hold, hnew, hne, hlast⟩ := h
  simpa using Retouch.mk (x ++ u) (v ++ y) old new hold hnew hne hlast

/-- What keeps a change keeps any number of them. -/
theorem Retouched.map {f : Layer → Layer} (hf : ∀ as bs, Retouch as bs → Retouch (f as) (f bs))
    (h : Retouched as bs) : Retouched (f as) (f bs) := by
  induction h with
  | refl => exact .refl _
  | tail _ hstep ih => exact Relation.ReflTransGen.tail ih (hf _ _ hstep)

theorem Retouched.append {as' bs' : Layer} (h : Retouched as as') (h' : Retouched bs bs') :
    Retouched (as ++ bs) (as' ++ bs') := by
  have hl : Retouched (as ++ bs) (as' ++ bs) :=
    h.map (f := (· ++ bs)) fun _ _ h => by simpa using h.append [] bs
  have hr : Retouched (as' ++ bs) (as' ++ bs') :=
    h'.map (f := (as' ++ ·)) fun _ _ h => by simpa using h.append as' []
  exact hl.trans hr

/-- Signs become signs. -/
theorem retouched_plain {old new : Text} (hold : AllSigns old) (hnew : AllSigns new)
    (hne : old = [] ∨ Text.Visible new) (hlast : new.getLast? ≠ some '\\') :
    Retouched (plain old) (plain new) := by
  simpa using (Retouch.mk [] [] old new hold hnew hne hlast).retouched

/-- Signs may be put around a stretch. -/
theorem retouched_around (first last : Text) (hf : IsDelimiter first) (hl : IsDelimiter last)
    (hflast : first.getLast? ≠ some '\\') (hllast : last.getLast? ≠ some '\\') (as : Layer) :
    Retouched as (plain first ++ (as ++ plain last)) := by
  have hins : ∀ s : Text, AllSigns s → s.getLast? ≠ some '\\' →
      Retouched [] (plain s) := fun s hs hlast => retouched_plain (by decide) hs (.inl rfl) hlast
  have h := (hins first hf.2 hflast).append ((Retouched.refl as).append (hins last hl.2 hllast))
  rwa [List.nil_append, List.append_nil] at h

/-- Delimiters become others. -/
theorem retouched_delimited {a a' b b' : Text} (ha : AllSigns a) (ha' : AllSigns a')
    (hb : AllSigns b ∧ Text.Visible b) (hb' : AllSigns b' ∧ Text.Visible b')
    (hlast : b.getLast? ≠ some '\\') (hlast' : b'.getLast? ≠ some '\\') (as : Layer) :
    Retouched (plain a ++ (as ++ plain a')) (plain b ++ (as ++ plain b')) :=
  (retouched_plain ha hb.1 (.inr hb.2) hlast).append
    ((Retouched.refl as).append (retouched_plain ha' hb'.1 (.inr hb'.2) hlast'))

/-! ## What stays -/

theorem Retouched.rest_eq (h : Retouched as bs) : rest bs = rest as := by
  induction h with
  | refl => rfl
  | tail _ hstep ih =>
    obtain ⟨x, y, old, new, hold, hnew, -, -⟩ := hstep
    rw [← ih]
    simp [hold.rest_eq_nil, hnew.rest_eq_nil]

/-- Tokens neither come nor go. -/
theorem Retouched.token_mem_iff (h : Retouched as bs) {kind : Kind} {i : Nat} :
    .token kind i ∈ bs ↔ .token kind i ∈ as := by
  have hrest : ∀ cs : Layer, .token kind i ∈ rest cs ↔ .token kind i ∈ cs := by simp [rest]
  rw [← hrest bs, h.rest_eq, hrest]

/-- A text stays one. -/
theorem Retouched.exists_plain {s : Text} (h : Retouched (plain s) bs) : ∃ t, bs = plain t := by
  refine (eq_plain_or_exists_token bs).resolve_right fun ⟨kind, i, hm⟩ => ?_
  exact token_not_mem_plain kind i s (h.token_mem_iff.1 hm)

/-- A text that is not just white space does not become white space. -/
theorem Retouched.visible {s t : Text} (h : Retouched (plain s) (plain t)) (hs : Text.Visible s) :
    Text.Visible t := by
  have key : ∀ {bs : Layer}, Retouched (plain s) bs → ∃ a ∈ bs, ∀ c, a = .char c → ¬ isBlank c := by
    intro bs h
    induction h with
    | refl =>
      obtain ⟨c, hc, hblank⟩ := hs
      refine ⟨.char c, List.mem_map_of_mem hc, fun d hd => ?_⟩
      cases hd
      exact hblank
    | tail _ hstep ih =>
      obtain ⟨x, y, old, new, hold, hnew, hne, -⟩ := hstep
      obtain ⟨a, ha, hvisible⟩ := ih
      rcases hne with rfl | ⟨c, hc, hblank⟩
      · refine ⟨a, ?_, hvisible⟩
        simp only [plain_nil, List.nil_append, List.mem_append] at ha ⊢
        tauto
      · refine ⟨.char c, ?_, fun d hd => ?_⟩
        · simp [plain, hc]
        · cases hd
          exact hblank
  obtain ⟨a, ha, hvisible⟩ := key h
  obtain ⟨c, hc, rfl⟩ := List.mem_map.1 ha
  exact ⟨c, hc, hvisible c rfl⟩

theorem Retouched.sound {S : Char} (hS : ¬ isSign S) (h : Retouched as bs) (hs : Sound S as) :
    Sound S bs := by
  induction h with
  | refl => exact hs
  | tail _ hstep ih =>
    obtain ⟨x, y, old, new, -, hnew, -, -⟩ := hstep
    simp only [sound_append, sound_plain] at ih ⊢
    exact ⟨ih.1, fun hm => hS (hnew S hm), ih.2.2⟩

theorem not_isSign_of_mem_tokenBody {kind : Kind} {i : Nat} {c : Char} (h : c ∈ tokenBody kind i) :
    ¬ isSign c := by
  intro hc
  have h := isTokenChar_of_mem_tokenBody h
  rcases isSign_iff.1 hc with rfl | rfl | rfl | rfl | rfl | rfl | rfl <;> revert h <;> decide

/-- No body of a token comes about by retouching. -/
theorem Retouched.clean (h : Retouched as bs) (hc : Clean as) : Clean bs := by
  induction h with
  | refl => exact hc
  | tail _ hstep ih =>
    obtain ⟨x, y, old, new, hold, hnew, hne, -⟩ := hstep
    intro kind i hb
    have hsign : ∀ c, .char c ∈ plain (tokenBody kind i) → ¬ isSign c := fun c hm =>
      not_isSign_of_mem_tokenBody (by simpa [plain] using hm)
    have hbody : plain (tokenBody kind i) ≠ [] := by
      simpa [plain] using tokenBody_ne_nil kind i
    cases new with
    | nil =>
      obtain rfl : old = [] := hne.resolve_right Text.not_visible_nil
      exact ih kind i hb
    | cons d new =>
      have hd := hnew d List.mem_cons_self
      rcases List.infix_append_iff_ne_nil.1 hb with hb | hb | ⟨l₁, l₂, -, hl₂, hl, -, hpre⟩
      · exact ih kind i (hb.trans (List.prefix_append _ _).isInfix)
      · rcases List.infix_append_iff_ne_nil.1 hb with hb | hb | ⟨l₁, l₂, hl₁, -, hl, hsuf, -⟩
        · obtain ⟨a, ha⟩ := List.exists_mem_of_ne_nil _ hbody
          obtain ⟨c, hc, rfl⟩ := List.mem_map.1 (hb.subset ha)
          exact hsign c ha (hnew c hc)
        · refine ih kind i (hb.trans ?_)
          exact (List.suffix_append _ _).isInfix.trans (List.suffix_append _ _).isInfix
        · obtain ⟨a, ha⟩ := List.exists_mem_of_ne_nil _ hl₁
          obtain ⟨c, hc, rfl⟩ := List.mem_map.1 (hsuf.subset ha)
          exact hsign c (hl ▸ List.mem_append_left _ ha) (hnew c hc)
      · obtain ⟨a, l₂, rfl⟩ := List.exists_cons_of_ne_nil hl₂
        obtain ⟨rfl, -⟩ := List.cons_prefix_cons.1 hpre
        exact hsign d (hl ▸ by simp) hd

/-- Retouching never ends a layer in a backslash that did not end in one. -/
theorem Retouched.getLast?_ne (h : Retouched as bs) (hl : as.getLast? ≠ some (.char '\\')) :
    bs.getLast? ≠ some (.char '\\') := by
  induction h with
  | refl => exact hl
  | tail _ hstep ih =>
    obtain ⟨x, y, old, new, hold, hnew, hne, hlast⟩ := hstep
    simp only [List.getLast?_append, plain, List.getLast?_map] at ih ⊢
    cases hy : y.getLast? with
    | some a => simpa [hy] using ih
    | none =>
      rw [hy] at ih
      cases hn : new.getLast? with
      | some c =>
        rw [hn] at hlast
        simpa using fun hc => hlast (by rw [hc])
      | none =>
        obtain rfl := List.getLast?_eq_none_iff.1 hn
        obtain rfl : old = [] := hne.resolve_right Text.not_visible_nil
        simpa using ih

/-- A token parts what is retouched before it from what is retouched after it. -/
theorem Retouched.exists_split {x y : Layer} {kind : Kind} {i : Nat}
    (h : Retouched (x ++ .token kind i :: y) bs) :
    ∃ x' y', bs = x' ++ .token kind i :: y' ∧ Retouched x x' ∧ Retouched y y' := by
  induction h with
  | refl => exact ⟨x, y, rfl, .refl x, .refl y⟩
  | tail _ hstep ih =>
    obtain ⟨x', y', hxy, hx, hy⟩ := ih
    obtain ⟨u, v, old, new, hold, hnew, hne, hlast⟩ := hstep
    rcases List.append_eq_append_iff.1 hxy with ⟨w, hw, hv⟩ | ⟨w, hw, hv⟩
    · -- the change is before the token
      rcases List.append_eq_append_iff.1 hv with ⟨z, rfl, rfl⟩ | ⟨z, hz, hz'⟩
      · refine ⟨u ++ (plain new ++ z), y', by simp, hx.trans ?_, hy⟩
        rw [hw]
        exact (Retouch.mk u z old new hold hnew hne hlast).retouched
      · cases z with
        | nil =>
          rw [List.append_nil] at hz
          rw [List.nil_append] at hz'
          refine ⟨u ++ plain new, y', by simp [← hz'], hx.trans ?_, hy⟩
          rw [hw, ← hz]
          simpa using (Retouch.mk u [] old new hold hnew hne hlast).retouched
        | cons a z =>
          obtain ⟨rfl, -⟩ := List.cons.inj hz'
          exact absurd (hz ▸ by simp) (token_not_mem_plain kind i old)
    · cases w with
      | nil =>
        cases old with
        | nil =>
          refine ⟨x' ++ plain new, y', by simp [hw, hv] , hx.trans ?_, hy⟩
          simpa using (Retouch.mk x' [] [] new hold hnew hne hlast).retouched
        | cons c old => exact absurd (List.cons.inj hv).1 (by simp)
      | cons a w =>
        obtain ⟨rfl, rfl⟩ := List.cons.inj hv
        refine ⟨x', w ++ (plain new ++ v), by simp [hw], hx, hy.trans ?_⟩
        exact (Retouch.mk w v old new hold hnew hne hlast).retouched

/-! ## Giving back -/

theorem Retouched.exchange {kind : Kind} {i : Nat} {new new' : Layer} (h : Retouched as bs)
    (hn : Retouched new new') : Retouched (exchange kind i new as) (exchange kind i new' bs) := by
  have hl : Retouched (Stash.exchange kind i new as) (Stash.exchange kind i new bs) := by
    refine h.map fun _ _ h => ?_
    obtain ⟨x, y, old, new', hold, hnew, hne, hlast⟩ := h
    simp only [exchange_append, exchange_plain]
    exact .mk _ _ _ _ hold hnew hne hlast
  have hr : ∀ bs, Retouched (Stash.exchange kind i new bs) (Stash.exchange kind i new' bs) := by
    intro bs
    induction bs with
    | nil => exact .refl []
    | cons b bs ih =>
      rw [exchange_cons, exchange_cons]
      refine Retouched.append ?_ ih
      split
      · exact hn
      · exact .refl [b]
  exact hl.trans (hr bs)

/-- Signs in what takes the place of a token, and around it, do not matter for the rest. -/
theorem rest_exchange (kind : Kind) (i : Nat) (new as : Layer) :
    rest (Stash.exchange kind i new as) = Stash.exchange kind i (rest new) (rest as) := by
  induction as with
  | nil => rfl
  | cons a as ih =>
    cases a with
    | char c =>
      rw [exchange_cons, if_neg (by simp), List.singleton_append]
      by_cases hc : isSign c
      · rw [rest_sign_cons hc, rest_sign_cons hc, ih]
      · rw [rest_char_cons hc, rest_char_cons hc, exchange_cons, if_neg (by simp), ih]
        rfl
    | token kind' j =>
      rw [exchange_cons, rest_append, ih, rest_token_cons, exchange_cons]
      split <;> rfl

theorem rest_giveBackIn (p : Kind → Bool) (es : Store) (as : Layer) :
    rest (giveBackIn p es as) = giveBackIn p (es.map fun e => (e.1, rest e.2)) (rest as) := by
  induction es generalizing as with
  | nil => rfl
  | cons e es ih =>
    rw [giveBackIn, List.map_cons, giveBackIn, ih, List.length_map]
    split
    · rw [rest_exchange]
    · rfl

/-- The stretches that were put aside, one by one retouched. -/
def RetouchedStore : Store → Store → Prop :=
  List.Forall₂ fun e e' => e.1 = e'.1 ∧ Retouched e.2 e'.2

/-- **Giving back retouched layers in a retouched layer.** -/
theorem Retouched.giveBackIn {p : Kind → Bool} {es es' : Store} (he : RetouchedStore es es')
    (h : Retouched as bs) : Retouched (giveBackIn p es as) (giveBackIn p es' bs) := by
  induction he generalizing as bs with
  | nil => exact h
  | @cons e e' es es' hee hes ih =>
    obtain ⟨kind, new⟩ := e
    obtain ⟨kind', new'⟩ := e'
    obtain ⟨rfl, hnew⟩ := hee
    rw [Stash.giveBackIn, Stash.giveBackIn, ← hes.length_eq]
    split
    · exact ih (h.exchange hnew)
    · exact ih h

theorem RetouchedStore.rest_eq {es es' : Store} (h : RetouchedStore es es') :
    es'.map (fun e => (e.1, rest e.2)) = es.map fun e => (e.1, rest e.2) := by
  induction h with
  | nil => rfl
  | cons hee _ ih => rw [List.map_cons, List.map_cons, ih, hee.1, hee.2.rest_eq]

theorem RetouchedStore.refl (es : Store) : RetouchedStore es es :=
  List.forall₂_same.2 fun _ _ => ⟨rfl, .refl _⟩

end

/-! ## Passes that rewrite -/

/-- **A pass that retouches what it finds retouches the layer.** -/
theorem exists_retouched {S : Char} {f : Text → Text} {cs : List Cell}
    (h : ∀ as ∈ Cell.founds cs, ∃ bs, f (spell S as) = spell S bs ∧ Retouched as bs) :
    ∃ bs, Piece.mapFound f (Cell.pieces S cs) = spell S bs ∧ Retouched (Cell.layer cs) bs := by
  induction cs with
  | nil => exact ⟨[], rfl, .refl []⟩
  | cons c cs ih =>
    cases c with
    | kept a =>
      obtain ⟨bs, hbs, hr⟩ := ih h
      refine ⟨a :: bs, ?_, (Retouched.refl [a]).append hr⟩
      rw [Cell.pieces_kept, Piece.mapFound_append, Piece.mapFound_keep, hbs]
      rfl
    | found as =>
      obtain ⟨bs, hbs, hr⟩ := ih fun cs hcs => h cs (List.mem_cons_of_mem _ hcs)
      obtain ⟨as', has, hr'⟩ := h as List.mem_cons_self
      refine ⟨as' ++ bs, ?_, hr'.append hr⟩
      rw [Cell.pieces_found, Piece.mapFound_found_cons, has, hbs, spell_append]

end Stash

end MarkdownPrep
