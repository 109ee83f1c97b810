import MarkdownPrep.Text.Cut

/-!
# Pieces in their places

`Piece.Placed P s ps` says that every stretch found in the pieces `ps`, which stand after `s`,
satisfies `P` together with what stands before it and what stands after it. For the pieces that a
recogniser cuts it is enough to look at one step (`placed_cut`); that and every other fact about a
cut text goes by `cut_induction`, whose cases are the steps of the cut: the end of the text, a
character that is kept, and what a recogniser takes off. Nothing found reaches over a place if it is
`Clear`; what comes after such a place is cut for itself (`Clear.exists_cut_append`).
-/

namespace MarkdownPrep

namespace Piece

/-- Every found stretch of some pieces that stand after `s` satisfies `P`, given what stands before
it and what stands after it. -/
def Placed (P : Text → Text → Text → Prop) (s : Text) (ps : List Piece) : Prop :=
  ∀ qs t rs, ps = qs ++ .found t :: rs → P (s ++ sources qs) t (sources rs)

section
variable {P : Text → Text → Text → Prop} {s : Text}

@[simp] theorem placed_nil : Placed P s [] := fun qs t rs h => by simp at h

@[simp] theorem placed_kept_cons {c : Char} {ps : List Piece} :
    Placed P s (.kept c :: ps) ↔ Placed P (s ++ [c]) ps := by
  constructor
  · rintro h qs t rs rfl
    simpa [source] using h (.kept c :: qs) t rs rfl
  · intro h qs t rs hps
    cases qs with
    | nil => cases hps
    | cons q qs =>
      obtain ⟨rfl, rfl⟩ := List.cons.inj hps
      simpa [source] using h qs t rs rfl

@[simp] theorem placed_found_cons {t : Text} {ps : List Piece} :
    Placed P s (.found t :: ps) ↔ P s t (sources ps) ∧ Placed P (s ++ t) ps := by
  constructor
  · intro h
    refine ⟨by simpa using h [] t ps rfl, ?_⟩
    rintro qs u rs rfl
    simpa [source] using h (.found t :: qs) u rs rfl
  · rintro ⟨h1, h2⟩ qs u rs hps
    cases qs with
    | nil =>
      cases hps
      simpa using h1
    | cons q qs =>
      obtain ⟨rfl, rfl⟩ := List.cons.inj hps
      simpa [source] using h2 qs u rs rfl

@[simp] theorem placed_append {ps qs : List Piece} :
    Placed P s (ps ++ qs) ↔
      Placed (fun x t y => P x t (y ++ sources qs)) s ps ∧ Placed P (s ++ sources ps) qs := by
  induction ps generalizing s with
  | nil => simp
  | cons p ps ih =>
    cases p with
    | kept c => simp [ih, source]
    | found t => simp [ih, source, and_assoc]

@[simp] theorem placed_keep {t : Text} : Placed P s (keep t) := by
  induction t generalizing s with
  | nil => exact placed_nil
  | cons c t ih => exact placed_kept_cons.2 ih

theorem Placed.mono {Q : Text → Text → Text → Prop} {ps : List Piece} (h : Placed P s ps)
    (hPQ : ∀ x t y, P x t y → Q x t y) : Placed Q s ps :=
  fun qs t rs hps => hPQ _ _ _ (h qs t rs hps)

theorem founds_append (ps qs : List Piece) : founds (ps ++ qs) = founds ps ++ founds qs := by
  simp [founds]

theorem founds_found_cons (t : Text) (ps : List Piece) : founds (.found t :: ps) = t :: founds ps :=
  rfl

/-- What is found stands in its place. -/
theorem forall_founds_of_placed {P : Text → Prop} {ps : List Piece}
    (h : Placed (fun _ t _ => P t) s ps) : ∀ t ∈ founds ps, P t := by
  induction ps generalizing s with
  | nil => simp [founds]
  | cons p ps ih =>
    cases p with
    | kept c => exact ih (placed_kept_cons.1 h)
    | found t =>
      obtain ⟨h₁, h₂⟩ := placed_found_cons.1 h
      exact List.forall_mem_cons.2 ⟨h₁, ih h₂⟩

theorem exists_append_of_mem_founds {t : Text} {ps : List Piece} (h : t ∈ founds ps) :
    ∃ qs rs, ps = qs ++ .found t :: rs := by
  obtain ⟨p, hp, ht⟩ := List.mem_filterMap.1 h
  cases p with
  | kept c => cases ht
  | found u =>
    obtain rfl := Option.some.inj ht
    exact List.append_of_mem hp

@[simp] theorem founds_keep (s : Text) : founds (keep s) = [] := by
  induction s with
  | nil => rfl
  | cons c s ih => exact ih

theorem retain_append (p : Text → Bool) (ps qs : List Piece) :
    retain p (ps ++ qs) = retain p ps ++ retain p qs := by simp [retain]

theorem retain_found_cons {p : Text → Bool} {t : Text} (h : p t) (ps : List Piece) :
    retain p (.found t :: ps) = .found t :: retain p ps := by simp [retain, h]

theorem retain_found_cons_of_not {p : Text → Bool} {t : Text} (h : p t = false)
    (ps : List Piece) : retain p (.found t :: ps) = keep t ++ retain p ps := by simp [retain, h]

theorem retain_keep (p : Text → Bool) (s : Text) : retain p (keep s) = keep s := by
  induction s with
  | nil => rfl
  | cons c s ih => exact congrArg (kept c :: ·) ih

theorem founds_retain (p : Text → Bool) (ps : List Piece) :
    founds (retain p ps) = (founds ps).filter p := by
  induction ps with
  | nil => rfl
  | cons q ps ih =>
    cases q with
    | kept c => exact ih
    | found t =>
      by_cases ht : p t
      · simp [retain_found_cons, founds_found_cons, ih, ht]
      · simp [retain_found_cons_of_not, founds_found_cons, founds_append, ih, ht]

theorem placed_retain {p : Text → Bool} {ps : List Piece} (h : Placed P s ps) :
    Placed (fun x t y => P x t y ∧ p t) s (retain p ps) := by
  induction ps generalizing s with
  | nil => exact placed_nil
  | cons q ps ih =>
    cases q with
    | kept c => exact placed_kept_cons.2 (ih (placed_kept_cons.1 h))
    | found t =>
      obtain ⟨h1, h2⟩ := placed_found_cons.1 h
      have hret : retain p (.found t :: ps) =
        (if p t then [.found t] else keep t) ++ retain p ps := by simp [retain]
      rw [hret]
      split
      · next hp =>
        rw [List.singleton_append, placed_found_cons, sources_retain]
        exact ⟨⟨h1, hp⟩, ih h2⟩
      · exact placed_append.2 ⟨placed_keep, by rw [sources_keep]; exact ih h2⟩

/-- Where nothing was found all is kept. -/
theorem eq_keep_of_founds_nil {ps : List Piece} (h : founds ps = []) : ps = keep (sources ps) := by
  induction ps with
  | nil => rfl
  | cons p ps ih =>
    cases p with
    | kept c => exact congrArg (kept c :: ·) (ih h)
    | found t => cases h

/-- At a place of the text the pieces part, or a stretch that was found reaches over it. -/
theorem exists_append_or_found {ps : List Piece} {x u : Text} (h : sources ps = x ++ u) :
    (∃ qs rs, ps = qs ++ rs ∧ sources qs = x ∧ sources rs = u) ∨
      ∃ qs t t' rs, ps = qs ++ .found (t ++ t') :: rs ∧ x = sources qs ++ t ∧
        u = t' ++ sources rs ∧ t ≠ [] ∧ t' ≠ [] := by
  induction ps generalizing x with
  | nil =>
    obtain ⟨rfl, rfl⟩ := List.append_eq_nil_iff.1 h.symm
    exact .inl ⟨[], [], rfl, rfl, rfl⟩
  | cons p ps ih =>
    by_cases hx : x = []
    · exact .inl ⟨[], p :: ps, rfl, hx.symm, by rw [h, hx]; rfl⟩
    rw [sources_cons] at h
    rcases List.append_eq_append_iff.1 h with ⟨x', rfl, hx'⟩ | ⟨t', hp, hu⟩
    · rcases ih hx' with ⟨qs, rs, rfl, rfl, rfl⟩ | ⟨qs, t, t', rs, rfl, rfl, hu, ht, ht'⟩
      · exact .inl ⟨p :: qs, rs, rfl, by simp, rfl⟩
      · exact .inr ⟨p :: qs, t, t', rs, rfl, by simp, hu, ht, ht'⟩
    · by_cases ht' : t' = []
      · exact .inl ⟨[p], ps, rfl, by simpa [ht'] using hp, by simp [hu, ht']⟩
      cases p with
      | kept c =>
        have hlen := congrArg List.length hp
        have := List.length_pos_iff.2 hx
        have := List.length_pos_iff.2 ht'
        simp [source] at hlen
        omega
      | found t => exact .inr ⟨[], x, t', ps, by rw [← hp]; rfl, rfl, hu, hx, ht'⟩

end

/-! ## Rewriting what was found -/

section
variable {f : Text → Text}

@[simp] theorem mapFound_nil : mapFound f [] = [] := rfl

@[simp] theorem mapFound_append (ps qs : List Piece) :
    mapFound f (ps ++ qs) = mapFound f ps ++ mapFound f qs := by simp [mapFound]

@[simp] theorem mapFound_kept_cons (c : Char) (ps : List Piece) :
    mapFound f (.kept c :: ps) = c :: mapFound f ps := by simp [mapFound]

@[simp] theorem mapFound_found_cons (t : Text) (ps : List Piece) :
    mapFound f (.found t :: ps) = f t ++ mapFound f ps := by simp [mapFound]

@[simp] theorem mapFound_keep (s : Text) : mapFound f (keep s) = s := by
  induction s with
  | nil => rfl
  | cons c s ih => exact (mapFound_kept_cons c _).trans (congrArg (c :: ·) ih)

theorem mapFound_congr {g : Text → Text} {ps : List Piece} (h : ∀ t ∈ founds ps, f t = g t) :
    mapFound f ps = mapFound g ps := by
  induction ps with
  | nil => rfl
  | cons p ps ih =>
    cases p with
    | kept c => exact congrArg (c :: ·) (ih h)
    | found t =>
      rw [founds_found_cons, List.forall_mem_cons] at h
      rw [mapFound_found_cons, mapFound_found_cons, h.1, ih h.2]

theorem mapFound_id (ps : List Piece) : mapFound (fun t => t) ps = sources ps := by
  induction ps with
  | nil => rfl
  | cons p ps ih => cases p <;> simp [ih, source]

theorem mapFound_of_founds_nil {ps : List Piece} (h : founds ps = []) :
    mapFound f ps = sources ps := by
  rw [eq_keep_of_founds_nil h, mapFound_keep, sources_keep]

/-- To rewrite what is still found is to leave the rest alone. -/
theorem mapFound_retain (p : Text → Bool) (ps : List Piece) :
    mapFound f (retain p ps) = mapFound (fun t => if p t then f t else t) ps := by
  induction ps with
  | nil => rfl
  | cons q ps ih =>
    cases q with
    | kept c => exact congrArg (c :: ·) ih
    | found t =>
      by_cases ht : p t
      · simp [retain_found_cons, ih, ht]
      · simp [retain_found_cons_of_not, ih, ht]

end

end Piece

/-- What is taken off is found whole. -/
def Recogniser.Single (r : Recogniser) : Prop :=
  ∀ before s ps, r before s = some ps → ∃ t, ps = [.found t]

theorem Recogniser.single_enclosed (first last : Text) : (enclosed first last).Single := by
  intro before s ps h
  rw [enclosed] at h
  split at h
  · obtain ⟨body, -, rfl⟩ := Option.map_eq_some_iff.1 h
    exact ⟨_, rfl⟩
  · cases h

/-- What is taken off does not depend on the text after it. -/
def Recogniser.Stable (r : Recogniser) : Prop :=
  ∀ before s t u, t <+: s → (r before (s ++ u) = some [.found t] ↔ r before s = some [.found t])

/-- The first stop in a text does not depend on what follows it. -/
theorem Text.upTo_append_iff {stop s body : Text} (hstop : stop ≠ []) (h : body ++ stop <+: s)
    (u : Text) : upTo stop (s ++ u) = some body ↔ upTo stop s = some body := by
  induction s generalizing body with
  | nil => exact absurd (List.append_eq_nil_iff.1 (List.prefix_nil.1 h)).2 hstop
  | cons c s ih =>
    have hlen : stop.length ≤ (c :: s).length := by
      have := h.length_le
      rw [List.length_append] at this
      omega
    have hfront : stop.isPrefixOf (c :: (s ++ u)) ↔ stop.isPrefixOf (c :: s) := by
      rw [List.isPrefixOf_iff_prefix, List.isPrefixOf_iff_prefix]
      exact ⟨fun hp => List.prefix_of_prefix_length_le hp (List.prefix_append (c :: s) u) hlen,
        fun hp => hp.trans (List.prefix_append (c :: s) u)⟩
    rw [List.cons_append, upTo, upTo]
    by_cases hp : stop.isPrefixOf (c :: s)
    · rw [if_pos hp, if_pos (hfront.2 hp)]
    · rw [if_neg hp, if_neg (mt hfront.1 hp)]
      cases body with
      | nil => exact absurd (List.isPrefixOf_iff_prefix.2 h) hp
      | cons d body =>
        obtain ⟨rfl, hrest⟩ := List.cons_prefix_cons.1 h
        simp [ih hrest]

theorem Recogniser.stable_enclosed (first : Text) {last : Text} (hlast : last ≠ []) :
    (enclosed first last).Stable := by
  intro before s t u ht
  -- both say that the text begins with the first delimiter and what the last one ends
  have hiff : ∀ s, enclosed first last before s = some [.found t] ↔ ∃ body v,
      s = first ++ v ∧ Text.upTo last v = some body ∧ t = first ++ body ++ last := by
    intro s
    rw [enclosed]
    by_cases hp : first.isPrefixOf s
    · obtain ⟨v, rfl⟩ := List.isPrefixOf_iff_prefix.1 hp
      rw [if_pos hp, List.drop_left, Option.map_eq_some_iff]
      simp [eq_comm]
    · rw [if_neg hp]
      refine iff_of_false (fun h => by cases h) ?_
      rintro ⟨body, v, rfl, -⟩
      exact absurd (List.isPrefixOf_iff_prefix.2 (List.prefix_append _ _)) hp
  rw [hiff, hiff]
  constructor
  · rintro ⟨body, v, hs, hbody, rfl⟩
    obtain ⟨w, rfl⟩ := ht
    have hv : v = body ++ last ++ w ++ u := by
      have hcancel : first ++ v = first ++ (body ++ last ++ w ++ u) := by
        rw [← hs]
        simp
      exact List.append_cancel_left hcancel
    subst hv
    refine ⟨body, body ++ last ++ w, by simp, ?_, rfl⟩
    exact (Text.upTo_append_iff hlast (List.prefix_append _ _) u).1 hbody
  · rintro ⟨body, v, rfl, hbody, rfl⟩
    refine ⟨body, v ++ u, List.append_assoc _ _ _, ?_, rfl⟩
    exact (Text.upTo_append_iff hlast (Text.append_prefix_of_upTo hbody) u).2 hbody

namespace Text

/-! ## A cut step by step -/

/-- The pieces of a text that stands after `x`. -/
def cutAfter (r : Recogniser) (x s : Text) : List Piece := cutFrom r x.getLast? 0 s

section
variable {r : Recogniser} {x : Text}

@[simp] theorem cutAfter_nil : cutAfter r x [] = [] := rfl

theorem cutAfter_of_none {c : Char} {s : Text} (h : r x.getLast? (c :: s) = none) :
    cutAfter r x (c :: s) = .kept c :: cutAfter r (x ++ [c]) s := by
  rw [cutAfter, cutFrom, h, cutAfter, List.getLast?_concat]

theorem cutFrom_covered (before : Option Char) (u v : Text) :
    cutFrom r before u.length (u ++ v) = cutFrom r (u.getLast?.or before) 0 v := by
  induction u generalizing before with
  | nil => rfl
  | cons c u ih =>
    rw [List.cons_append, List.length_cons, cutFrom, ih, List.getLast?_cons]
    cases u.getLast? <;> rfl

theorem cutAfter_of_some (hr : r.Honest) {u v : Text} {ps : List Piece}
    (h : r x.getLast? (u ++ v) = some ps) (hu : Piece.sources ps = u) :
    cutAfter r x (u ++ v) = ps ++ cutAfter r (x ++ u) v := by
  have hne : u ≠ [] := hu ▸ (hr _ _ _ h).1
  obtain ⟨c, u, rfl⟩ := List.exists_cons_of_ne_nil hne
  rw [cutAfter, List.cons_append, cutFrom, ← List.cons_append, h]
  dsimp only
  rw [hu, List.length_cons, Nat.add_sub_cancel, cutFrom_covered, cutAfter, List.getLast?_append,
    List.getLast?_cons]
  cases u.getLast? <;> rfl

/-- **Induction over the steps of a cut.** -/
theorem cut_induction (hr : r.Honest) {motive : Text → Text → List Piece → Prop}
    (nil : ∀ x, motive x [] [])
    (kept : ∀ x c s, r x.getLast? (c :: s) = none → motive (x ++ [c]) s (cutAfter r (x ++ [c]) s) →
      motive x (c :: s) (.kept c :: cutAfter r (x ++ [c]) s))
    (found : ∀ x u v ps, r x.getLast? (u ++ v) = some ps → Piece.sources ps = u →
      motive (x ++ u) v (cutAfter r (x ++ u) v) →
      motive x (u ++ v) (ps ++ cutAfter r (x ++ u) v)) :
    ∀ x s, motive x s (cutAfter r x s) := by
  have key : ∀ (n : Nat) (x s : Text), s.length = n → motive x s (cutAfter r x s) := by
    intro n
    induction n using Nat.strongRecOn with
    | ind n ih =>
      rintro x s rfl
      cases s with
      | nil => exact nil x
      | cons c s =>
        cases h : r x.getLast? (c :: s) with
        | none =>
          rw [cutAfter_of_none h]
          exact kept x c s h (ih _ (Nat.lt_succ_self _) _ s rfl)
        | some ps =>
          obtain ⟨hne, v, hv⟩ := hr _ _ _ h
          rw [← hv] at h ⊢
          have hlen : v.length < (c :: s).length := by
            rw [← hv, List.length_append]
            have := List.length_pos_iff.2 hne
            omega
          rw [cutAfter_of_some hr h rfl]
          exact found x _ v ps h rfl (ih _ hlen _ v rfl)
  exact fun x s => key _ x s rfl

theorem sources_cutAfter (hr : r.Honest) (x s : Text) :
    Piece.sources (cutAfter r x s) = s := by
  rw [cutAfter, sources_cutFrom hr, List.drop_zero]

/-- **Every stretch found in a cut text is in its place** if each step finds only such. -/
theorem placed_cutAfter (hr : r.Honest) {P : Text → Text → Text → Prop}
    (h : ∀ x u v ps, r x.getLast? (u ++ v) = some ps → Piece.sources ps = u →
      Piece.Placed (fun a t b => P a t (b ++ v)) x ps) (x s : Text) :
    Piece.Placed P x (cutAfter r x s) := by
  refine cut_induction hr (motive := fun x _ ps => Piece.Placed P x ps) ?_ ?_ ?_ x s
  · exact fun x => Piece.placed_nil
  · exact fun x c s _ ih => Piece.placed_kept_cons.2 ih
  · intro x u v ps hps hu ih
    refine Piece.placed_append.2 ⟨?_, hu ▸ ih⟩
    rw [sources_cutAfter hr]
    exact h x u v ps hps hu

theorem placed_cut (hr : r.Honest) {P : Text → Text → Text → Prop}
    (h : ∀ x u v ps, r x.getLast? (u ++ v) = some ps → Piece.sources ps = u →
      Piece.Placed (fun a t b => P a t (b ++ v)) x ps) (s : Text) :
    Piece.Placed P [] (cut r s) :=
  placed_cutAfter hr h [] s

/-- What stands between two fixed delimiters is found with them. -/
theorem placed_enclosed {first : Text} (hf : first ≠ []) (last s : Text) :
    Piece.Placed (fun _ t _ => ∃ body, t = first ++ body ++ last) []
      (cut (.enclosed first last) s) := by
  refine placed_cut (Recogniser.honest_enclosed hf last) ?_ s
  intro x u v ps h _
  simp only [Recogniser.enclosed] at h
  split at h
  · obtain ⟨body, -, rfl⟩ := Option.map_eq_some_iff.1 h
    exact Piece.placed_found_cons.2 ⟨⟨body, rfl⟩, Piece.placed_nil⟩
  · simp at h

/-! ## Places that nothing reaches over -/

/-- Nothing that is found in `s` reaches over the place after its front part `x`. -/
def Clear (r : Recogniser) (x s : Text) : Prop :=
  ∃ ps qs, cut r s = ps ++ qs ∧ Piece.sources ps = x

/-- Where a cut comes to a place, it goes on with the text after it. -/
theorem cutAfter_append (hr : r.Honest) (hs : r.Single) {y u : Text} {ps qs : List Piece}
    (h : cutAfter r y (x ++ u) = ps ++ qs) (hx : Piece.sources ps = x) :
    qs = cutAfter r (y ++ x) u := by
  induction ps generalizing x y with
  | nil =>
    obtain rfl : x = [] := hx.symm
    simpa using h.symm
  | cons p ps ih =>
    cases hxu : x ++ u with
    | nil =>
      rw [hxu] at h
      cases h
    | cons c s =>
      cases hnext : r y.getLast? (x ++ u) with
      | none =>
        rw [hxu] at h hnext
        rw [cutAfter_of_none hnext] at h
        obtain ⟨rfl, htail⟩ := List.cons.inj h
        obtain rfl : x = c :: Piece.sources ps := by simpa [Piece.source] using hx.symm
        obtain rfl := (List.cons.inj hxu).2
        simpa using ih htail rfl
      | some ps' =>
        obtain ⟨t, rfl⟩ := hs _ _ _ hnext
        obtain ⟨-, v, hv⟩ := hr _ _ _ hnext
        rw [← hv] at h hnext
        rw [cutAfter_of_some hr hnext rfl] at h
        obtain ⟨rfl, htail⟩ := List.cons.inj h
        rw [Piece.sources_cons] at hx
        subst hx
        obtain rfl : v = Piece.sources ps ++ u := by simpa [Piece.source] using hv
        simpa [Piece.source] using ih htail rfl

/-- **A cut up to a place** is the cut of the text before it. -/
theorem eq_cutAfter_of_append (hr : r.Honest) (hs : r.Single) (hst : r.Stable) {y u : Text}
    {ps qs : List Piece} (h : cutAfter r y (x ++ u) = ps ++ qs) (hx : Piece.sources ps = x) :
    ps = cutAfter r y x := by
  induction ps generalizing x y with
  | nil =>
    obtain rfl : x = [] := hx.symm
    rfl
  | cons p ps ih =>
    cases hxu : x ++ u with
    | nil =>
      rw [hxu] at h
      cases h
    | cons c s =>
      cases hnext : r y.getLast? (x ++ u) with
      | none =>
        rw [hxu] at h
        rw [cutAfter_of_none (hxu ▸ hnext)] at h
        obtain ⟨rfl, htail⟩ := List.cons.inj h
        obtain rfl : x = c :: Piece.sources ps := by simpa [Piece.source] using hx.symm
        obtain rfl := (List.cons.inj hxu).2
        have hfront : r y.getLast? (c :: Piece.sources ps) = none := by
          refine Option.eq_none_iff_forall_ne_some.2 fun ps' hps' => ?_
          obtain ⟨t, rfl⟩ := hs _ _ _ hps'
          have ht : t <+: c :: Piece.sources ps := by simpa [Piece.source] using (hr _ _ _ hps').2
          rw [(hst _ _ t u ht).2 hps'] at hnext
          cases hnext
        rw [cutAfter_of_none hfront, ← ih htail rfl]
      | some ps' =>
        obtain ⟨t, rfl⟩ := hs _ _ _ hnext
        obtain ⟨-, v, hv⟩ := hr _ _ _ hnext
        have hcut := hnext
        rw [← hv] at h hcut
        rw [cutAfter_of_some hr hcut rfl] at h
        obtain ⟨rfl, htail⟩ := List.cons.inj h
        rw [Piece.sources_cons] at hx
        subst hx
        obtain rfl : v = Piece.sources ps ++ u := by simpa [Piece.source] using hv
        have hfront := (hst _ _ t u (List.prefix_append t (Piece.sources ps))).1 hnext
        have hstep := cutAfter_of_some hr hfront (by simp [Piece.source])
        rw [Piece.source, hstep, ← ih (by simpa [Piece.source] using htail) rfl]
        rfl

/-- Nothing that is found in the text of some parts reaches over a place between them. -/
def Parted (r : Recogniser) (xs : List Text) : Prop :=
  ∃ pss : List (List Piece), cut r xs.flatten = pss.flatten ∧ pss.map Piece.sources = xs

theorem parted_of_cut_eq (hr : r.Honest) {xs : List Text}
    (h : cut r xs.flatten = (xs.map (cut r)).flatten) : Parted r xs := by
  refine ⟨xs.map (cut r), h, ?_⟩
  rw [List.map_map]
  exact List.map_id'' (source_cut hr) xs

theorem cutAfter_congr (h : ∀ b b' s, r b s = r b' s) (y s : Text) : cutAfter r y s = cut r s := by
  have key : ∀ (s : Text) (b b' : Option Char) (n : Nat), cutFrom r b n s = cutFrom r b' n s := by
    intro s
    induction s with
    | nil => exact fun _ _ _ => rfl
    | cons c s ih =>
      intro b b' n
      cases n with
      | zero => rw [cutFrom, cutFrom, h b b']
      | succ n => exact ih _ _ n
  exact key s _ _ 0

/-- **Parts over whose ends nothing reaches** are cut by themselves. -/
theorem Parted.cut_eq (hr : r.Honest) (hs : r.Single) (hst : r.Stable)
    (hbefore : ∀ b b' s, r b s = r b' s) {xs : List Text} (h : Parted r xs) :
    cut r xs.flatten = (xs.map (cut r)).flatten := by
  obtain ⟨pss, hcut, rfl⟩ := h
  have key : ∀ (pss : List (List Piece)) (y : Text),
      cutAfter r y (pss.map Piece.sources).flatten = pss.flatten →
      pss = (pss.map Piece.sources).map (cut r) := by
    intro pss
    induction pss with
    | nil => exact fun _ _ => rfl
    | cons ps pss ih =>
      intro y hy
      rw [List.map_cons, List.flatten_cons, List.flatten_cons] at hy
      have hfirst := eq_cutAfter_of_append hr hs hst hy rfl
      have hrest := cutAfter_append hr hs hy rfl
      rw [cutAfter_congr hbefore] at hfirst
      rw [List.map_cons, List.map_cons, ← hfirst, ← ih _ hrest.symm]
  rw [hcut]
  exact congrArg List.flatten (key pss [] hcut)

theorem Clear.exists_cut_append (hr : r.Honest) (hs : r.Single) {u : Text}
    (h : Clear r x (x ++ u)) : ∃ ps, cut r (x ++ u) = ps ++ cutAfter r x u ∧
      Piece.sources ps = x := by
  obtain ⟨ps, qs, hcut, hx⟩ := h
  have hqs := cutAfter_append hr hs (y := []) hcut hx
  exact ⟨ps, by rw [hcut, hqs, List.nil_append], hx⟩

/-- A stretch that is found reaches over a place that is not clear. -/
theorem exists_found_of_not_clear {u : Text} (hr : r.Honest) (h : ¬ Clear r x (x ++ u)) :
    ∃ ps t t' qs, cut r (x ++ u) = ps ++ .found (t ++ t') :: qs ∧ x = Piece.sources ps ++ t ∧
      u = t' ++ Piece.sources qs ∧ t' ≠ [] := by
  rcases Piece.exists_append_or_found (source_cut hr (x ++ u)) with
    ⟨ps, qs, hcut, hx, -⟩ | ⟨ps, t, t', qs, hcut, hx, hu, -, ht'⟩
  · exact absurd ⟨ps, qs, hcut, hx⟩ h
  · exact ⟨ps, t, t', qs, hcut, hx, hu, ht'⟩

/-- Characters where nothing is taken off are kept. -/
theorem cutAfter_append_of_none {u v : Text}
    (h : ∀ y c w, u = y ++ c :: w → r (x ++ y).getLast? (c :: (w ++ v)) = none) :
    cutAfter r x (u ++ v) = Piece.keep u ++ cutAfter r (x ++ u) v := by
  induction u generalizing x with
  | nil => simp [Piece.keep]
  | cons c u ih =>
    have hnone : r x.getLast? (c :: (u ++ v)) = none := by simpa using h [] c u rfl
    have hih := ih (x := x ++ [c]) fun y d w hu => by
      simpa using h (c :: y) d w (by rw [hu, List.cons_append])
    rw [List.cons_append, cutAfter_of_none hnone, hih]
    simp [Piece.keep]

/-- A text in which nothing is taken off is kept. -/
theorem cut_eq_keep {s : Text}
    (h : ∀ y c w, s = y ++ c :: w → r y.getLast? (c :: w) = none) : cut r s = Piece.keep s := by
  have hcut := cutAfter_append_of_none (x := []) (v := []) fun y c w hs => by
    rw [List.append_nil]
    exact h y c w hs
  rwa [List.append_nil, cutAfter_nil, List.append_nil] at hcut

/-- What a recogniser takes off whole is found. -/
theorem cutAfter_append_of_found (hr : r.Honest) {u v : Text}
    (h : r x.getLast? (u ++ v) = some [.found u]) :
    cutAfter r x (u ++ v) = .found u :: cutAfter r (x ++ u) v :=
  cutAfter_of_some hr h (by simp [Piece.source])

end

/-- The first `c` of a text parts it in one way only. -/
theorem eq_of_append_cons_eq {c : Char} {x y s t : Text} (hx : c ∉ x) (hy : c ∉ y)
    (h : x ++ c :: s = y ++ c :: t) : x = y ∧ s = t := by
  rcases List.append_eq_append_iff.1 h with ⟨w, rfl, hw⟩ | ⟨w, rfl, hw⟩
  · cases w with
    | nil => exact ⟨(List.append_nil x).symm, (List.cons.inj hw).2⟩
    | cons d w => exact absurd (by simp [(List.cons.inj hw).1]) hy
  · cases w with
    | nil => exact ⟨List.append_nil y, (List.cons.inj hw).2.symm⟩
    | cons d w => exact absurd (by simp [(List.cons.inj hw).1]) hx

/-- A place of a text comes after its front part `u`, or there is more of `u` after it. -/
theorem after_or_inside {u v y z : Text} (h : u ++ v = y ++ z) :
    (∃ w, y = u ++ w ∧ v = w ++ z) ∨ ∃ w ≠ [], u = y ++ w ∧ z = w ++ v := by
  rcases List.append_eq_append_iff.1 h with hafter | ⟨w, hu, hz⟩
  · exact .inl hafter
  · by_cases hw : w = []
    · exact .inl ⟨[], by simpa [hw] using hu.symm, by simpa [hw] using hz.symm⟩
    · exact .inr ⟨w, hw, hu, hz⟩

theorem drop_length_takeWhile (p : Char → Bool) (s : Text) :
    s.drop (s.takeWhile p).length = s.dropWhile p := by
  have hdrop : (s.takeWhile p ++ s.dropWhile p).drop (s.takeWhile p).length = s.dropWhile p :=
    List.drop_left
  rwa [List.takeWhile_append_dropWhile] at hdrop

/-- What stands between delimiters of the same length. -/
theorem drop_take_append {α : Type} {n : Nat} {a b : List α} (ha : a.length = n) (hb : b.length = n)
    (s : List α) : ((a ++ (s ++ b)).take ((a ++ (s ++ b)).length - n)).drop n = s := by
  have hlen : (a ++ (s ++ b)).length - n = (a ++ s).length := by
    simp only [List.length_append]
    omega
  rw [hlen, ← List.append_assoc, List.take_left, List.drop_left' ha]

theorem inner_append {n : Nat} {a b : Text} (ha : a.length = n) (hb : b.length = n) (s : Text) :
    inner n (a ++ (s ++ b)) = s := drop_take_append ha hb s

/-- The text before a stop is read up to the first one. -/
theorem upTo_append {c : Char} {body : Text} (hc : c ∉ body) (stop v : Text) :
    upTo (c :: stop) (body ++ (c :: stop ++ v)) = some body := by
  induction body with
  | nil => simp [upTo]
  | cons d body ih =>
    rw [List.mem_cons, not_or] at hc
    rw [List.cons_append, upTo, if_neg, ih hc.2, Option.map_some]
    intro hp
    exact hc.1 (List.cons_prefix_cons.1 (List.isPrefixOf_iff_prefix.1 hp)).1

/-- A stretch between delimiters is taken off whole if the last one does not come earlier. -/
theorem enclosed_append {c : Char} {body : Text} (hc : c ∉ body) (before : Option Char)
    (first stop v : Text) :
    Recogniser.enclosed first (c :: stop) before (first ++ body ++ (c :: stop) ++ v) =
      some [.found (first ++ body ++ (c :: stop))] := by
  have hs : first ++ body ++ (c :: stop) ++ v = first ++ (body ++ (c :: stop ++ v)) := by simp
  rw [Recogniser.enclosed, if_pos (by simp), hs, List.drop_left, upTo_append hc]
  rfl

end Text

end MarkdownPrep
