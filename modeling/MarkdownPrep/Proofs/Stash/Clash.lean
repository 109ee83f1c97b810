import MarkdownPrep.Proofs.Stash.GiveBack

/-!
# Clashes

`Holds s es as` says that giving the layers of `es` back in `as`, newest first, makes it the text
`s`: each has its token in the layer when its turn comes, begins with an edge, and ends with one or
where the layer ends. The texts then make it too, unless a text *clashes*: in the layer, or in a
layer put aside later, the body of a token stands between two tokens that are not newer
(`Clashes`). This is exact: `giveBack_eq_iff`.

A token that is exchanged brings no such body about, and takes none away: what takes its place
begins and ends with an edge (`flanked_exchange_iff`).
-/

namespace MarkdownPrep.Stash

/-- A token stands at the end of a layer, and nowhere else in it. -/
def AtEnd (kind : Kind) (i : Nat) (as : Layer) : Prop :=
  ∃ pre, as = pre ++ [.token kind i] ∧ .token kind i ∉ pre

/-- The layers of a store make a layer the text `s`. -/
inductive Holds (s : Text) : Store → Layer → Prop
  | nil : Holds s [] (plain s)
  | cons {kind : Kind} {new : Layer} {older : Store} {as : Layer}
      (mem : .token kind older.length ∈ as) (opens : Opens new)
      (shut : Shut new ∨ AtEnd kind older.length as)
      (back : Holds s older (exchange kind older.length new as)) : Holds s ((kind, new) :: older) as

/-- In a layer the characters `w` stand between two tokens, the first of a number less than `n`,
the second of one that is at most `n`. -/
def Flanked (w : Text) (n : Nat) (as : Layer) : Prop :=
  ∃ kind₁ i₁ kind₂ i₂, i₁ < n ∧ i₂ ≤ n ∧
    .token kind₁ i₁ :: (plain w ++ [.token kind₂ i₂]) <:+: as

/-- In a layer, or in one that was put aside later than some other, the body of the token of that
other stands between tokens that are not newer. -/
def Clashes (es : Store) (as : Layer) : Prop :=
  ∃ newer kind new older, es = newer ++ (kind, new) :: older ∧
    ∃ bs ∈ as :: newer.map Prod.snd, Flanked (tokenBody kind older.length) older.length bs

/-! ## What a store that holds a text is like -/

section
variable {s : Text} {es : Store} {as : Layer} {S : Char}

theorem Holds.giveBackIn (h : Holds s es as) : giveBackIn (fun _ => true) es as = plain s := by
  induction h with
  | nil => rfl
  | cons _ _ _ _ ih => exact ih

theorem Holds.sound (h : Holds s es as) (hs : S ∉ s) : Sound S as := by
  induction h with
  | nil => exact sound_plain.2 hs
  | cons _ _ _ _ ih => exact fun hm => ih (char_mem_exchange hm)

theorem mem_exchange_of_mem {kind : Kind} {i : Nat} {new as : Layer} (h : .token kind i ∈ as)
    {a : Atom} (ha : a ∈ new) : a ∈ exchange kind i new as :=
  List.mem_flatMap.2 ⟨_, h, by simpa using ha⟩

theorem Holds.sound_store (h : Holds s es as) (hs : S ∉ s) : ∀ e ∈ es, Sound S e.2 := by
  induction h with
  | nil => simp
  | cons mem _ _ back ih =>
    refine List.forall_mem_cons.2 ⟨fun hm => ?_, ih⟩
    exact back.sound hs (mem_exchange_of_mem mem hm)

theorem Holds.opens_store (h : Holds s es as) : ∀ e ∈ es, Opens e.2 := by
  induction h with
  | nil => simp
  | cons _ opens _ _ ih => exact List.forall_mem_cons.2 ⟨opens, ih⟩

theorem token_mem_exchange {kind kind' : Kind} {i i' : Nat} {new as : Layer}
    (h : .token kind' i' ∈ as) (hne : (.token kind' i' : Atom) ≠ .token kind i) :
    .token kind' i' ∈ exchange kind i new as :=
  List.mem_flatMap.2 ⟨_, h, by rw [if_neg hne]; exact List.mem_singleton_self _⟩

/-- A token of the layer stands for a layer of the store. -/
theorem Holds.hasEntry (h : Holds s es as) {kind : Kind} {i : Nat} (hm : .token kind i ∈ as) :
    HasEntry es kind i := by
  induction h with
  | nil => exact absurd hm (token_not_mem_plain _ _ _)
  | @cons kind' new older as _ _ _ _ ih =>
    by_cases he : (.token kind i : Atom) = .token kind' older.length
    · cases he
      exact hasEntry_cons_self
    · exact (ih (token_mem_exchange hm he)).cons _

theorem Holds.token_lt (h : Holds s es as) {kind : Kind} {i : Nat} (hm : .token kind i ∈ as) :
    i < es.length :=
  (h.hasEntry hm).lt

/-- The newest number has one kind. -/
theorem Holds.kind_eq {kind kind' : Kind} {new : Layer} {older : Store}
    (h : Holds s ((kind, new) :: older) as) (hm : .token kind' older.length ∈ as) :
    kind' = kind := by
  obtain ⟨newer, new', older', he, hlen⟩ := h.hasEntry hm
  cases newer with
  | nil =>
    cases he
    rfl
  | cons e newer =>
    have hlength := congrArg List.length he
    simp only [List.cons_append, List.length_cons, List.length_append] at hlength
    omega

/-- What is given back for a token that something follows ends with an edge. -/
theorem Holds.shut_giveBackIn (h : Holds s es as) {x y : Layer} {kind : Kind} {i : Nat}
    (hxy : as = x ++ .token kind i :: y) (hy : y ≠ []) :
    Shut (Stash.giveBackIn (fun _ => true) es [.token kind i]) := by
  induction h generalizing x y with
  | nil => exact absurd (hxy ▸ by simp) (token_not_mem_plain kind i s)
  | @cons kind' new older as mem opens shut back ih =>
    rw [Stash.giveBackIn, if_pos rfl, exchange_cons, exchange_nil, List.append_nil]
    split
    · next he =>
      cases he
      rcases shut with ⟨c, hc, hedge⟩ | ⟨pre, hpre, hnot⟩
      · obtain ⟨new, rfl⟩ := List.getLast?_eq_some_iff.1 hc
        rw [giveBackIn_append, show [Atom.char c] = plain [c] from rfl, giveBackIn_plain]
        exact ⟨c, List.getLast?_concat, hedge⟩
      · -- the token does not stand at the end, since something follows it
        obtain ⟨z, b, rfl⟩ := (y.eq_nil_or_concat).resolve_left hy
        rw [hxy, List.concat_eq_append, ← List.cons_append, ← List.append_assoc] at hpre
        exact absurd ((List.append_inj' hpre rfl).1 ▸ by simp) hnot
    · next hne =>
      refine ih (x := Stash.exchange kind' older.length new x)
        (y := Stash.exchange kind' older.length new y) ?_ ?_
      · rw [hxy, exchange_append, exchange_cons, if_neg hne, List.singleton_append]
      · obtain ⟨b, y, rfl⟩ := List.exists_cons_of_ne_nil hy
        obtain ⟨c, hc, -⟩ := opens
        rw [exchange_cons]
        split
        · obtain ⟨w, rfl⟩ := List.head?_eq_some_iff.1 hc
          simp
        · simp

/-- **Putting framed stretches aside** makes a store that holds the same text. -/
theorem Holds.hide {kind : Kind} {cs : List Cell} (h : Holds s es (Cell.layer cs))
    (hf : Cell.Framed cs) : Holds s (stored kind cs es) (Cell.hidden kind es.length cs) := by
  have key : ∀ (cs : List Cell) (es : Store) (pre : Layer), Holds s es (pre ++ Cell.layer cs) →
      Cell.Framed cs → Holds s (stored kind cs es) (pre ++ Cell.hidden kind es.length cs) := by
    intro cs
    induction cs with
    | nil => intro es pre h _; exact h
    | cons c cs ih =>
      intro es pre h hf
      cases c with
      | kept a => simpa [Cell.hidden] using ih es (pre ++ [a]) (by simpa using h) hf
      | found as =>
        obtain ⟨hopens, hshut, hf⟩ := hf
        have hnew : .token kind es.length ∉ pre ++ Cell.layer (.found as :: cs) :=
          fun hm => Nat.lt_irrefl _ (h.token_lt hm)
        simp only [Cell.layer_found, List.mem_append, not_or] at hnew
        have hput : Holds s ((kind, as) :: es)
            ((pre ++ [.token kind es.length]) ++ Cell.layer cs) := by
          refine .cons (by simp) hopens (hshut.imp_right fun hnil => ?_) ?_
          · exact ⟨pre, by rw [hnil, List.append_nil], hnew.1⟩
          · rw [List.append_assoc, List.singleton_append, exchange_at hnew.1 hnew.2.2]
            exact h
        simpa [Cell.hidden] using ih _ _ hput hf
  exact key cs es [] h hf

/-! ## Flanks -/

/-- Characters of a token are not exchanged, nor is a further token. -/
theorem prefix_of_prefix_exchange {kind : Kind} {i : Nat} {new : Layer} (ho : Opens new) {w : Text}
    (hw : ∀ c ∈ w, isTokenChar c) {kind₂ : Kind} {i₂ : Nat} {as : Layer}
    (h : plain w ++ [.token kind₂ i₂] <+: exchange kind i new as) :
    plain w ++ [.token kind₂ i₂] <+: as := by
  obtain ⟨d, hd, hedge⟩ := ho
  obtain ⟨new', rfl⟩ := List.head?_eq_some_iff.1 hd
  induction w generalizing as with
  | nil =>
    cases as with
    | nil => simp at h
    | cons a as =>
      rw [exchange_cons] at h
      split at h
      · simp at h
      · simp only [plain_nil, List.nil_append, List.singleton_append, List.cons_prefix_cons] at h ⊢
        exact ⟨h.1, List.nil_prefix⟩
  | cons c w ih =>
    rw [List.forall_mem_cons] at hw
    cases as with
    | nil => simp at h
    | cons a as =>
      rw [exchange_cons] at h
      split at h
      · simp only [plain_cons, List.cons_append, List.cons_prefix_cons, Atom.char.injEq] at h
        exact absurd hw.1 (h.1 ▸ not_isTokenChar_of_isEdge hedge)
      · simp only [plain_cons, List.cons_append, List.cons_prefix_cons] at h ⊢
        exact ⟨h.1, ih hw.2 h.2⟩

/-- The last atom of a flank, or of a front part of it, is no edge. -/
theorem not_shut_of_prefix_flank {w : Text} (hw : ∀ c ∈ w, isTokenChar c)
    {kind₁ kind₂ : Kind} {i₁ i₂ : Nat} {l : Layer}
    (h : l <+: .token kind₁ i₁ :: (plain w ++ [.token kind₂ i₂])) : ¬ Shut l := by
  rintro ⟨c, hc, hedge⟩
  have hm := h.subset (List.mem_of_getLast? hc)
  simp only [plain, List.mem_cons, List.mem_append, List.mem_map, Atom.char.injEq, reduceCtorEq,
    List.not_mem_nil, or_false, false_or, exists_eq_right] at hm
  exact not_isTokenChar_of_isEdge hedge (hw c hm)

theorem flank_of_exchange {kind : Kind} {i : Nat} {new as : Layer} (ho : Opens new)
    (hsh : Shut new ∨ AtEnd kind i as) {w : Text} (hw : ∀ c ∈ w, isTokenChar c)
    {kind₁ kind₂ : Kind} {i₁ i₂ : Nat}
    (h : .token kind₁ i₁ :: (plain w ++ [.token kind₂ i₂]) <:+: exchange kind i new as) :
    .token kind₁ i₁ :: (plain w ++ [.token kind₂ i₂]) <:+: as ∨
      .token kind₁ i₁ :: (plain w ++ [.token kind₂ i₂]) <:+: new := by
  induction as with
  | nil => simp at h
  | cons a as ih =>
    by_cases ha : a = .token kind i
    · subst ha
      rw [exchange_self_cons] at h
      rcases hsh with hsh | ⟨pre, hpre, hnot⟩
      · rcases List.infix_append_iff_ne_nil.1 h with h | h | ⟨l₁, l₂, hl₁, hl₂, hl, ⟨x, hx⟩, -⟩
        · exact .inr h
        · exact (ih (.inl hsh) h).imp_left (·.trans (List.suffix_cons _ _).isInfix)
        · refine absurd ?_ (not_shut_of_prefix_flank hw ⟨l₂, hl.symm⟩)
          obtain ⟨c, hc, hedge⟩ := hsh
          refine ⟨c, ?_, hedge⟩
          rw [← hx, List.getLast?_append_of_ne_nil _ hl₁] at hc
          exact hc
      · cases pre with
        | nil =>
          obtain rfl : as = [] := (List.cons.inj hpre).2
          exact .inr (by simpa using h)
        | cons b pre => exact absurd ((List.cons.inj hpre).1 ▸ List.mem_cons_self) hnot
    · rw [exchange_cons, if_neg ha, List.singleton_append] at h
      rcases List.infix_cons_iff.1 h with h | h
      · obtain ⟨rfl, h'⟩ := List.cons_prefix_cons.1 h
        exact .inl (List.cons_prefix_cons.2 ⟨rfl, prefix_of_prefix_exchange ho hw h'⟩).isInfix
      · refine (ih ?_ h).imp_left (·.trans (List.suffix_cons _ _).isInfix)
        refine hsh.imp_right ?_
        rintro ⟨pre, hpre, hnot⟩
        cases pre with
        | nil => exact absurd (List.cons.inj hpre).1 ha
        | cons b pre =>
          exact ⟨pre, (List.cons.inj hpre).2, fun hm => hnot (List.mem_cons_of_mem _ hm)⟩

theorem Flanked.exchange {kind : Kind} {i n : Nat} (hn : n < i) {new as : Layer} {w : Text}
    (h : Flanked w n as) : Flanked w n (exchange kind i new as) := by
  obtain ⟨kind₁, i₁, kind₂, i₂, h₁, h₂, x, y, rfl⟩ := h
  refine ⟨kind₁, i₁, kind₂, i₂, h₁, h₂, Stash.exchange kind i new x, Stash.exchange kind i new y,
    ?_⟩
  have hne : ∀ kind' i', i' ≤ n → (.token kind' i' : Atom) ≠ .token kind i := by
    rintro kind' i' hi he
    cases he
    omega
  simp only [exchange_append, exchange_cons, exchange_plain, exchange_nil,
    if_neg (hne _ _ (Nat.le_of_lt h₁)), if_neg (hne _ _ h₂), List.append_nil, List.singleton_append]

/-- **Exchanging a newer token** keeps what is flanked and adds what is flanked in its layer. -/
theorem flanked_exchange_iff {kind : Kind} {i n : Nat} (hn : n < i) {new as : Layer}
    (hm : .token kind i ∈ as) (ho : Opens new) (hsh : Shut new ∨ AtEnd kind i as) {w : Text}
    (hw : ∀ c ∈ w, isTokenChar c) :
    Flanked w n (Stash.exchange kind i new as) ↔ Flanked w n as ∨ Flanked w n new := by
  constructor
  · rintro ⟨kind₁, i₁, kind₂, i₂, h₁, h₂, h⟩
    exact (flank_of_exchange ho hsh hw h).imp (⟨_, _, _, _, h₁, h₂, ·⟩) (⟨_, _, _, _, h₁, h₂, ·⟩)
  · rintro (h | ⟨kind₁, i₁, kind₂, i₂, h₁, h₂, h⟩)
    · exact h.exchange hn
    · refine ⟨kind₁, i₁, kind₂, i₂, h₁, h₂, h.trans ?_⟩
      obtain ⟨x, y, rfl⟩ := List.append_of_mem hm
      rw [exchange_append, exchange_self_cons, ← List.append_assoc]
      exact List.infix_append _ _ _

/-! ## Clashes -/

/-- The newest layer clashes, or an older one does with the newest layer in place. -/
theorem clashes_cons_iff {kind : Kind} {new : Layer} {old : Store}
    (hm : .token kind old.length ∈ as)
    (ho : Opens new) (hsh : Shut new ∨ AtEnd kind old.length as) :
    Clashes ((kind, new) :: old) as ↔ Flanked (tokenBody kind old.length) old.length as ∨
      Clashes old (Stash.exchange kind old.length new as) := by
  have hstep : ∀ kind' n, n < old.length → (Flanked (tokenBody kind' n) n
      (Stash.exchange kind old.length new as) ↔ Flanked (tokenBody kind' n) n as ∨
        Flanked (tokenBody kind' n) n new) := fun kind' n hn =>
    flanked_exchange_iff hn hm ho hsh fun _ => isTokenChar_of_mem_tokenBody
  constructor
  · rintro ⟨newer, kind', new', older, he, bs, hbs, h⟩
    cases newer with
    | nil =>
      cases he
      rw [List.map_nil, List.mem_singleton] at hbs
      exact .inl (hbs ▸ h)
    | cons e newer =>
      obtain ⟨rfl, rfl⟩ := List.cons.inj he
      have hlt : older.length < (newer ++ (kind', new') :: older).length := by
        simp only [List.length_append, List.length_cons]
        omega
      refine .inr ⟨newer, kind', new', older, rfl, ?_⟩
      simp only [List.map_cons, List.mem_cons] at hbs
      rcases hbs with rfl | rfl | hbs
      · exact ⟨_, List.mem_cons_self, (hstep _ _ hlt).2 (.inl h)⟩
      · exact ⟨_, List.mem_cons_self, (hstep _ _ hlt).2 (.inr h)⟩
      · exact ⟨bs, List.mem_cons_of_mem _ hbs, h⟩
  · rintro (h | ⟨newer, kind', new', older, rfl, bs, hbs, h⟩)
    · exact ⟨[], kind, new, old, rfl, as, List.mem_cons_self, h⟩
    · have hlt : older.length < (newer ++ (kind', new') :: older).length := by
        simp only [List.length_append, List.length_cons]
        omega
      refine ⟨(kind, new) :: newer, kind', new', older, rfl, ?_⟩
      rcases List.mem_cons.1 hbs with rfl | hbs
      · rcases (hstep _ _ hlt).1 h with h | h
        · exact ⟨as, by simp, h⟩
        · exact ⟨new, by simp, h⟩
      · exact ⟨bs, by simp only [List.map_cons, List.mem_cons]; exact .inr (.inr hbs), h⟩

/-- When its turn comes, a token is spoofed exactly if its body is flanked. -/
theorem Holds.spoofs_iff {kind : Kind} {new : Layer} {older : Store}
    (h : Holds s ((kind, new) :: older) as) :
    Spoofs kind older.length as ↔ Flanked (tokenBody kind older.length) older.length as := by
  constructor
  · rintro ⟨kind₁, i₁, kind₂, i₂, hne, hsp⟩
    have hlt₁ := h.token_lt (hsp.subset List.mem_cons_self)
    have hlt₂ := h.token_lt (hsp.subset (List.mem_cons_of_mem _ (List.mem_append_right _
      (List.mem_singleton_self (Atom.token kind₂ i₂)))))
    refine ⟨kind₁, i₁, kind₂, i₂, ?_, Nat.le_of_lt_succ hlt₂, hsp⟩
    refine Nat.lt_of_le_of_ne (Nat.le_of_lt_succ hlt₁) ?_
    rintro rfl
    exact hne (by rw [h.kind_eq (hsp.subset List.mem_cons_self)])
  · rintro ⟨kind₁, i₁, kind₂, i₂, h₁, -, hsp⟩
    refine ⟨kind₁, i₁, kind₂, i₂, ?_, hsp⟩
    rintro he
    cases he
    exact Nat.lt_irrefl _ h₁

/-- **No token is spoofed exactly if nothing clashes.** -/
theorem Holds.unspoofed_iff (h : Holds s es as) :
    Unspoofed (fun _ => true) es as ↔ ¬ Clashes es as := by
  induction h with
  | nil => simp [Unspoofed, Clashes]
  | @cons kind new older as mem opens shut back ih =>
    rw [clashes_cons_iff mem opens shut, ← (Holds.cons mem opens shut back).spoofs_iff, not_or,
      ← ih]
    simp [Unspoofed]

/-! ## Giving back the texts -/

/-- Once a run is not balanced, giving back does not mend it. -/
theorem balanced_of_giveBack (hS : ¬ isTokenChar S) (he : ∀ e ∈ es, Sound S e.2 ∧ Opens e.2)
    {u : Text}
    (h : balanced S false (giveBack (fun _ t => some t) S (spellAll S es) u)) :
    balanced S false u := by
  induction es generalizing u with
  | nil => exact h
  | cons e es ih =>
    rw [List.forall_mem_cons] at he
    exact balanced_of_replace hS he.1.1 he.1.2 _ _ _ rfl (ih he.2 h)

theorem unspoofed_of_balanced (hS : ¬ isTokenChar S) (he : ∀ e ∈ es, Sound S e.2 ∧ Opens e.2)
    (hs : Sound S as)
    (h : balanced S false (giveBack (fun _ t => some t) S (spellAll S es) (spell S as))) :
    Unspoofed (fun _ => true) es as := by
  induction es generalizing as with
  | nil => trivial
  | cons e es ih =>
    obtain ⟨kind, new⟩ := e
    rw [List.forall_mem_cons] at he
    rw [spellAll_cons, giveBack, length_spellAll] at h
    have hsp : ¬ Spoofs kind es.length as := by
      intro hsp
      have hb := balanced_of_giveBack hS he.2 h
      rw [not_balanced_of_spoofs hS hs he.1.1 he.1.2 hsp] at hb
      cases hb
    dsimp only at h
    rw [replace_spell hS new hs hsp] at h
    exact ⟨fun _ => hsp, ih he.2 (hs.exchange he.1.1) h⟩

/-- **The texts of a store give `s` back exactly if nothing clashes.** -/
theorem Holds.giveBack_eq_iff (hS : ¬ isTokenChar S) (hs : S ∉ s) (h : Holds s es as) :
    giveBack (fun _ t => some t) S (spellAll S es) (spell S as) = s ↔ ¬ Clashes es as := by
  rw [← h.unspoofed_iff]
  constructor
  · intro hb
    refine unspoofed_of_balanced hS (fun e he => ⟨h.sound_store hs e he, h.opens_store e he⟩)
      (h.sound hs) ?_
    rw [hb]
    exact balanced_of_not_mem hs
  · intro hun
    have hg := giveBack_spell hS (h.sound hs) (h.sound_store hs) hun
    rw [h.giveBackIn, spell_plain] at hg
    exact hg

end

end MarkdownPrep.Stash
