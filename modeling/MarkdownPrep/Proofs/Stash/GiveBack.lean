import MarkdownPrep.Proofs.Stash.Cells
import MarkdownPrep.Proofs.Stash.Exchange

/-!
# Giving back in a layer

`giveBackIn` exchanges the tokens of the layers of a store, newest first. In the text of a sound
layer the same happens as long as nothing spoofs a token when its turn comes (`Unspoofed`,
`giveBack_spell`). In the text of any layer it happens if the outcome is `Clean`: characters once
in a layer stay in it, so no layer on the way has the body of a token (`giveBack_spell_of_clean`).

* `giveBackIn_hidden`: what a pass put aside comes back where it was found.
-/

namespace MarkdownPrep.Stash

/-- A layer with the tokens of the layers of some kinds exchanged for them. -/
def giveBackIn (p : Kind → Bool) : Store → Layer → Layer
  | [], as => as
  | (kind, new) :: older, as =>
    giveBackIn p older (if p kind then exchange kind older.length new as else as)

/-- Nothing spoofs a token of these kinds when it is about to be exchanged. -/
def Unspoofed (p : Kind → Bool) : Store → Layer → Prop
  | [], _ => True
  | (kind, new) :: older, as =>
    (p kind → ¬ Spoofs kind older.length as) ∧
      Unspoofed p older (if p kind then exchange kind older.length new as else as)

section
variable {p : Kind → Bool} {S : Char}

@[simp] theorem giveBackIn_nil (as : Layer) : giveBackIn p [] as = as := rfl

@[simp] theorem giveBackIn_append (es : Store) (as bs : Layer) :
    giveBackIn p es (as ++ bs) = giveBackIn p es as ++ giveBackIn p es bs := by
  induction es generalizing as bs with
  | nil => rfl
  | cons e es ih =>
    simp only [giveBackIn]
    split
    · rw [exchange_append, ih]
    · rw [ih]

@[simp] theorem giveBackIn_plain (es : Store) (s : Text) :
    giveBackIn p es (plain s) = plain s := by
  induction es with
  | nil => rfl
  | cons e es ih => simpa [giveBackIn] using ih

@[simp] theorem giveBackIn_empty (es : Store) : giveBackIn p es [] = [] := giveBackIn_plain es []

/-- Layers of other kinds are passed over. -/
theorem giveBackIn_of_forall_not {new : Store} (h : ∀ e ∈ new, p e.1 = false) (old : Store)
    (as : Layer) : giveBackIn p (new ++ old) as = giveBackIn p old as := by
  induction new generalizing as with
  | nil => rfl
  | cons e new ih =>
    rw [List.forall_mem_cons] at h
    rw [List.cons_append, giveBackIn, if_neg (by simp [h.1]), ih h.2]

theorem giveBackIn_congr {q : Kind → Bool} {es : Store} (h : ∀ e ∈ es, p e.1 = q e.1)
    (as : Layer) : giveBackIn p es as = giveBackIn q es as := by
  induction es generalizing as with
  | nil => rfl
  | cons e es ih =>
    rw [List.forall_mem_cons] at h
    rw [giveBackIn, giveBackIn, h.1, ih h.2]

/-! ## Characters stay -/

theorem char_mem_exchange {kind : Kind} {i : Nat} {new as : Layer} {c : Char}
    (h : .char c ∈ as) : .char c ∈ exchange kind i new as :=
  List.mem_flatMap.2 ⟨.char c, h, by simp⟩

theorem char_mem_giveBackIn {es : Store} {as : Layer} {c : Char} (h : .char c ∈ as) :
    .char c ∈ giveBackIn p es as := by
  induction es generalizing as with
  | nil => exact h
  | cons e es ih =>
    rw [giveBackIn]
    split
    · exact ih (char_mem_exchange h)
    · exact ih h

/-- A character that tokens do not have stays in a text. -/
theorem mem_giveBack {back : Kind → Text → Option Text} {ts : List (Kind × Text)} {s : Text}
    {c : Char} (hc : ¬ IsMark S c) (h : c ∈ s) : c ∈ giveBack back S ts s := by
  induction ts generalizing s with
  | nil => exact h
  | cons e ts ih =>
    rw [giveBack]
    refine ih ?_
    split
    · exact Text.mem_replace (List.cons_ne_nil _ _) (mt isMark_of_mem_token hc) _ h
    · exact h

theorem Sound.exchange {kind : Kind} {i : Nat} {new as : Layer} (hs : Sound S as)
    (hn : Sound S new) : Sound S (exchange kind i new as) := by
  intro h
  obtain ⟨a, ha, hc⟩ := List.mem_flatMap.1 h
  split at hc
  · exact hn hc
  · exact hs (List.mem_singleton.1 hc ▸ ha)

/-- **Giving back in a text is giving back in its layer** if nothing spoofs a token. -/
theorem giveBack_spell (hS : ¬ isTokenChar S) {es : Store} {as : Layer} (hs : Sound S as)
    (he : ∀ e ∈ es, Sound S e.2) (h : Unspoofed p es as) :
    giveBack (fun kind t => if p kind then some t else none) S (spellAll S es) (spell S as) =
      spell S (giveBackIn p es as) := by
  induction es generalizing as with
  | nil => rfl
  | cons e es ih =>
    obtain ⟨kind, new⟩ := e
    rw [List.forall_mem_cons] at he
    rw [Unspoofed] at h
    rw [spellAll_cons, giveBack, giveBackIn, length_spellAll]
    by_cases hp : p kind
    · rw [if_pos hp] at h
      simp only [if_pos hp]
      rw [replace_spell hS new hs (h.1 hp), ih (hs.exchange he.1) he.2 h.2]
    · rw [if_neg hp] at h
      simp only [if_neg hp]
      exact ih hs he.2 h.2

/-- What is given back may be changed before. -/
theorem giveBack_map (f : Text → Text) (S : Char) (ts : List (Kind × Text)) (s : Text) :
    giveBack (fun _ t => some (f t)) S ts s =
      giveBack (fun _ t => some t) S (ts.map fun e => (e.1, f e.2)) s := by
  induction ts generalizing s with
  | nil => rfl
  | cons e ts ih =>
    rw [giveBack, List.map_cons, giveBack, List.length_map]
    exact ih _

/-! ## Clean layers -/

/-- Nowhere in a layer do characters read as the body of a token. -/
def Clean (as : Layer) : Prop := ∀ kind i, ¬ plain (tokenBody kind i) <:+: as

theorem Clean.of_infix {as bs : Layer} (h : Clean bs) (hi : as <:+: bs) : Clean as :=
  fun kind i hb => h kind i (hb.trans hi)

/-- A text in which no body of a token occurs is clean. -/
theorem clean_plain {s : Text} (h : ∀ kind i, ¬ tokenBody kind i <:+: s) : Clean (plain s) := by
  rintro kind i ⟨x, y, hxy⟩
  obtain ⟨u, v, rfl, hu, -⟩ := List.map_eq_append_iff.1 hxy.symm
  obtain ⟨w, b, rfl, -, hb⟩ := List.map_eq_append_iff.1 hu
  obtain rfl := plain_inj hb
  exact h kind i (List.infix_append _ _ _)

/-- A stretch of characters stays together. -/
theorem plain_infix_exchange {kind : Kind} {i : Nat} {new as : Layer} {s : Text}
    (h : plain s <:+: as) : plain s <:+: exchange kind i new as := by
  obtain ⟨x, y, rfl⟩ := h
  rw [exchange_append, exchange_append, exchange_plain]
  exact List.infix_append _ _ _

/-- If the outcome is clean, so is every layer on the way to it. -/
theorem clean_of_giveBackIn {es : Store} {as : Layer} (h : Clean (giveBackIn p es as)) :
    Clean as := by
  induction es generalizing as with
  | nil => exact h
  | cons e es ih =>
    have hclean := ih h
    intro kind i hb
    refine hclean kind i ?_
    split
    · exact plain_infix_exchange hb
    · exact hb

theorem not_token_prefix_of_clean (hS : ¬ isTokenChar S) {as : Layer} (h : Clean as) (kind : Kind)
    (i : Nat) : ¬ token S kind i <+: S :: spell S as := by
  rintro ⟨u, hu⟩
  have hspell : spell S as = tokenBody kind i ++ S :: u := by
    simpa [token] using (List.cons.inj hu).2.symm
  obtain ⟨bs, rfl, -⟩ := exists_plain_of_spell hspell (sentinel_not_mem_tokenBody hS kind i)
  exact h kind i (List.prefix_append _ _).isInfix

/-- **In a clean layer a token is replaced where it stands, and nothing else is**, be the sentinel
one of its characters. -/
theorem replace_spell_of_clean (hS : ¬ isTokenChar S) {kind : Kind} {i : Nat} (new : Layer)
    {as : Layer} (h : Clean as) : Text.replace (token S kind i) (spell S new) (spell S as) =
      spell S (exchange kind i new as) := by
  induction as with
  | nil => rfl
  | cons a as ih =>
    have hclean : Clean as := h.of_infix (List.suffix_cons a as).isInfix
    have hnot := not_token_prefix_of_clean hS hclean kind i
    have ih := ih hclean
    cases a with
    | char c =>
      rw [spell_char_cons, Text.replace_cons_of_not_front, ih, exchange_cons, if_neg (by simp)]
      · rfl
      · intro hp
        obtain rfl : S = c := (List.cons_prefix_cons.1 hp).1
        exact hnot hp
    | token kind' i' =>
      by_cases he : (.token kind' i' : Atom) = .token kind i
      · cases he
        have htok : spell S (.token kind i :: as) = token S kind i ++ spell S as := rfl
        rw [exchange_self_cons, spell_append, ← ih, htok,
          Text.replace_append_self (by simp [token])]
      · rw [replace_spell_token hS _ he, Text.replace_cons_of_not_front _ hnot, ih, exchange_cons,
          if_neg he, List.singleton_append, spell_token_cons]

/-- **Giving back in a text is giving back in its layer** if the outcome is clean. -/
theorem giveBack_spell_of_clean (hS : ¬ isTokenChar S) {es : Store} {as : Layer}
    (h : Clean (giveBackIn p es as)) :
    giveBack (fun kind t => if p kind then some t else none) S (spellAll S es) (spell S as) =
      spell S (giveBackIn p es as) := by
  induction es generalizing as with
  | nil => rfl
  | cons e es ih =>
    obtain ⟨kind, new⟩ := e
    rw [spellAll_cons, giveBack, length_spellAll]
    have has := clean_of_giveBackIn h
    rw [giveBackIn] at h ⊢
    by_cases hp : p kind
    · rw [if_pos hp] at h ⊢
      simp only [if_pos hp]
      rw [replace_spell_of_clean hS new has, ih h]
    · rw [if_neg hp] at h ⊢
      simp only [if_neg hp]
      exact ih h

/-! ## What a pass put aside -/

open Cell

theorem giveBackIn_stored_of_not {kind : Kind} (hp : p kind = false) (cs : List Cell) (old : Store)
    (as : Layer) : giveBackIn p (stored kind cs old) as = giveBackIn p old as := by
  refine giveBackIn_of_forall_not (fun e he => ?_) old as
  simp only [List.mem_reverse, List.mem_map] at he
  obtain ⟨as, -, rfl⟩ := he
  exact hp

/-- **What a pass put aside comes back where it was found.** -/
theorem giveBackIn_hidden {kind : Kind} (hp : p kind) {cs : List Cell} {old : Store}
    (h : ∀ i, .token kind i ∈ layer cs → i < old.length) :
    giveBackIn p (stored kind cs old) (Cell.hidden kind old.length cs) =
      giveBackIn p old (layer cs) := by
  have key : ∀ (cs : List Cell) (old : Store) (pre : Layer),
      (∀ i, .token kind i ∈ pre ++ layer cs → i < old.length) →
      giveBackIn p (stored kind cs old) (pre ++ Cell.hidden kind old.length cs) =
        giveBackIn p old (pre ++ layer cs) := by
    intro cs
    induction cs with
    | nil => intro old pre _; rfl
    | cons c cs ih =>
      intro old pre h
      cases c with
      | kept a =>
        have hih := ih old (pre ++ [a]) (by simpa using h)
        simpa [Cell.hidden] using hih
      | found as =>
        have hnew : .token kind old.length ∉ pre ++ layer (found as :: cs) :=
          fun hm => Nat.lt_irrefl _ (h _ hm)
        simp only [layer_found, List.mem_append, not_or] at hnew h
        have hih := ih ((kind, as) :: old) (pre ++ [.token kind old.length]) <| by
          intro i hi
          simp only [List.mem_append, List.mem_singleton, Atom.token.injEq, true_and] at hi
          rcases hi with (hi | rfl) | hi
          · exact Nat.lt_succ_of_lt (h i (.inl hi))
          · exact Nat.lt_succ_self _
          · exact Nat.lt_succ_of_lt (h i (.inr (.inr hi)))
        rw [stored_found, Cell.hidden, layer_found]
        simp only [List.append_assoc, List.singleton_append] at hih
        refine hih.trans ?_
        rw [giveBackIn, if_pos hp, exchange_at hnew.1 hnew.2.2]
  exact key cs old [] h

/-- What a pass put aside of a layer without tokens of its kind comes back. -/
theorem giveBackIn_hidden_of_not_mem {kind : Kind} (hp : p kind) {cs : List Cell}
    (h : ∀ i, .token kind i ∉ layer cs) (old : Store) :
    giveBackIn p (stored kind cs old) (Cell.hidden kind old.length cs) =
      giveBackIn p old (layer cs) :=
  giveBackIn_hidden hp fun i hi => absurd hi (h i)

end

end MarkdownPrep.Stash
