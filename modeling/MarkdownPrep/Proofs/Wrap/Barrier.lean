import Mathlib.Data.List.Basic
import MarkdownPrep.Proofs.Wrap.Pairing

/-!
# What wrapping cannot reach into

A stretch is a `Barrier` if it begins and ends with a dollar or the sentinel and has one white space
character at most. What a pass wraps stands between breaks and holds neither dollar nor sentinel, so
none of it reaches into a barrier (`Barrier.exists_parts`), and the passes wrap on either side of it
(`wrapBareMath_barrier`). The dollars that they put there keep away from it: one that stands within
two characters of the barrier has white space in between (`AwayFromEnd`, `AwayFromStart`).
-/

namespace MarkdownPrep

namespace Piece

/-- A character of rewritten text was kept, or stands in what a found stretch was rewritten to. -/
theorem exists_of_mapFound_eq {f : Text → Text} {ps : List Piece} {c : Char} {u v : Text}
    (h : mapFound f ps = u ++ c :: v) :
    (∃ qs rs, ps = qs ++ .kept c :: rs ∧ u = mapFound f qs ∧ v = mapFound f rs) ∨
      ∃ qs t rs a b, ps = qs ++ .found t :: rs ∧ f t = a ++ c :: b ∧ u = mapFound f qs ++ a ∧
        v = b ++ mapFound f rs := by
  induction ps generalizing u with
  | nil => simp at h
  | cons p ps ih =>
    cases p with
    | kept d =>
      rw [mapFound_kept_cons] at h
      cases u with
      | nil =>
        obtain ⟨rfl, rfl⟩ := List.cons.inj h
        exact .inl ⟨[], ps, rfl, rfl, rfl⟩
      | cons e u =>
        obtain ⟨rfl, hrest⟩ := List.cons.inj h
        rcases ih hrest with ⟨qs, rs, rfl, rfl, rfl⟩ | ⟨qs, t, rs, a, b, rfl, ht, rfl, rfl⟩
        · exact .inl ⟨.kept d :: qs, rs, rfl, rfl, rfl⟩
        · exact .inr ⟨.kept d :: qs, t, rs, a, b, rfl, ht, rfl, rfl⟩
    | found t =>
      rw [mapFound_found_cons] at h
      rcases List.append_eq_append_iff.1 h with ⟨w, rfl, hw⟩ | ⟨w, ht, hw⟩
      · rcases ih hw with ⟨qs, rs, rfl, rfl, rfl⟩ | ⟨qs, t', rs, a, b, rfl, ht', rfl, rfl⟩
        · exact .inl ⟨.found t :: qs, rs, rfl, rfl, rfl⟩
        · exact .inr ⟨.found t :: qs, t', rs, a, b, rfl, ht', by simp, rfl⟩
      · cases w with
        | nil =>
          rcases ih (u := []) hw.symm with ⟨qs, rs, rfl, hqs, rfl⟩ | ⟨qs, t', rs, a, b, rfl, ht', hu, rfl⟩
          · refine .inl ⟨.found t :: qs, rs, rfl, ?_, rfl⟩
            rw [mapFound_found_cons, ← hqs, ht]
            simp
          · refine .inr ⟨.found t :: qs, t', rs, a, b, rfl, ht', ?_, rfl⟩
            rw [mapFound_found_cons, List.append_assoc, ← hu, ht]
            simp
        | cons d w =>
          obtain ⟨rfl, rfl⟩ := List.cons.inj hw
          exact .inr ⟨[], t, ps, u, w, rfl, ht, rfl, rfl⟩

end Piece

namespace Wrap

/-- A stretch that nothing wrapped reaches into. -/
structure Barrier (S : Char) (m : Text) : Prop where
  head : ∃ c, m.head? = some c ∧ (c = '$' ∨ c = S)
  last : ∃ c, m.getLast? = some c ∧ (c = '$' ∨ c = S)
  blanks : m.countP isBlank ≤ 1

/-- No dollar is among the last two characters, unless white space comes after it. -/
def AwayFromEnd (x : Text) : Prop :=
  ∀ u v, x = u ++ '$' :: v → 2 ≤ v.length ∨ v.head?.any isBlank

/-- No dollar is among the first two characters, unless white space comes before it. -/
def AwayFromStart (z : Text) : Prop :=
  ∀ u v, z = u ++ '$' :: v → 2 ≤ u.length ∨ u.getLast?.any isBlank

variable {S : Char} {m x z t u : Text} {ps qs rs : List Piece}

theorem InPlace.not_mem (h : InPlace S x t u) {c : Char} (hc : c = '$' ∨ c = S) : c ∉ t := by
  rcases hc with rfl | rfl
  · exact h.dollar
  · exact h.sentinel

/-- What is wrapped inside a barrier would stand between two of its breaks. -/
theorem Barrier.not_inPlace {a b : Text} (hm : Barrier S (a ++ (t ++ b)))
    (h : InPlace S (x ++ a) t (b ++ z)) : False := by
  obtain ⟨c, hc, hfirst⟩ := hm.head
  obtain ⟨d, hd, hlast⟩ := hm.last
  have hne : t ≠ [] := by
    obtain ⟨e, w, rfl, -⟩ := h.head
    exact List.cons_ne_nil e w
  have hbefore : a.countP isBlank ≠ 0 := by
    rcases a.eq_nil_or_concat with rfl | ⟨a, e, rfl⟩
    · rw [List.nil_append, List.head?_append_of_ne_nil _ hne] at hc
      exact absurd (List.mem_of_head? hc) (h.not_mem hfirst)
    · have hblank : isBlank e := by simpa [← List.append_assoc] using h.before
      simp [hblank]
  have hafter : b.countP isBlank ≠ 0 := by
    cases b with
    | nil =>
      rw [List.append_nil, List.getLast?_append_of_ne_nil _ hne] at hd
      exact absurd (List.mem_of_getLast? hd) (h.not_mem hlast)
    | cons e b =>
      have hblank : isBlank e := h.after
      simp [hblank]
  have hcount := hm.blanks
  rw [List.countP_append, List.countP_append] at hcount
  omega

/-- **Nothing that is wrapped reaches into a barrier.** -/
theorem Barrier.exists_parts (hm : Barrier S m) (h : Piece.Placed (InPlace S) [] ps)
    (hps : Piece.sources ps = x ++ (m ++ z)) :
    ∃ qs rs, ps = qs ++ (Piece.keep m ++ rs) ∧ Piece.sources qs = x ∧ Piece.sources rs = z := by
  obtain ⟨c, hc, hfirst⟩ := hm.head
  obtain ⟨d, hd, hlast⟩ := hm.last
  rcases Piece.exists_append_or_found hps with ⟨qs, ps', rfl, rfl, hps'⟩ |
    ⟨qs, t, t', rs, rfl, -, hu, -, ht'⟩
  · rcases Piece.exists_append_or_found hps' with ⟨ms, rs, rfl, rfl, rfl⟩ |
      ⟨ms, t, t', rs, rfl, rfl, -, ht, -⟩
    · have hms : Piece.Placed (fun _ _ _ => False) [] ms := by
        rintro as t bs rfl
        have hin := h (qs ++ as) t (bs ++ rs) (by simp)
        simp only [List.nil_append, Piece.sources_append, Piece.sources_cons] at hin hm
        exact hm.not_inPlace hin
      have hnil : Piece.founds ms = [] :=
        List.eq_nil_iff_forall_not_mem.2 (Piece.forall_founds_of_placed hms)
      exact ⟨qs, rs, by rw [← Piece.eq_keep_of_founds_nil hnil], rfl, rfl⟩
    · rw [List.getLast?_append_of_ne_nil _ ht] at hd
      have hin := h (qs ++ ms) (t ++ t') rs (by simp)
      exact absurd (List.mem_append_left t' (List.mem_of_getLast? hd)) (hin.not_mem hlast)
  · have hmne : m ≠ [] := List.ne_nil_of_mem (List.mem_of_head? hc)
    have hhead : t'.head? = some c := by
      have heq := congrArg List.head? hu
      rwa [List.head?_append_of_ne_nil _ hmne, List.head?_append_of_ne_nil _ ht', hc, eq_comm] at heq
    have hin := h qs (t ++ t') rs rfl
    exact absurd (List.mem_append_right t (List.mem_of_head? hhead)) (hin.not_mem hfirst)

/-! ## The dollars next to a barrier -/

theorem length_sources_le (ps : List Piece) :
    (Piece.sources ps).length ≤ (Piece.mapFound wrapped ps).length := by
  induction ps with
  | nil => exact Nat.le_refl 0
  | cons p ps ih =>
    cases p with
    | kept c => simpa [Piece.source] using ih
    | found t => simp [Piece.source, wrapped]; omega

/-- A dollar around a stretch without dollars is the first or the last. -/
theorem of_wrapped_eq {a b : Text} (ht : '$' ∉ t) (h : wrapped t = a ++ '$' :: b) :
    (a = [] ∧ b = t ++ ['$']) ∨ (a = '$' :: t ∧ b = []) := by
  cases a with
  | nil => exact .inl ⟨rfl, (List.cons.inj h).2.symm⟩
  | cons c a =>
    obtain ⟨rfl, hrest⟩ := List.cons.inj h
    refine .inr ?_
    rcases List.append_eq_append_iff.1 hrest with ⟨w, rfl, hw⟩ | ⟨w, rfl, hw⟩
    · cases w with
      | nil => exact ⟨by simp, (List.cons.inj hw).2.symm⟩
      | cons d w => simp at hw
    · cases w with
      | nil => exact ⟨by simp, (List.cons.inj hw).2⟩
      | cons d w => exact absurd (by simp [← (List.cons.inj hw).1]) ht

/-- What begins with white space begins with it when it is wrapped, or becomes longer. -/
theorem head?_mapFound_wrapped (h : (Piece.sources ps).head?.any isBlank) :
    2 ≤ (Piece.mapFound wrapped ps).length ∨ (Piece.mapFound wrapped ps).head?.any isBlank := by
  rcases ps with _ | ⟨c | t, ps⟩
  · simp at h
  · exact .inr h
  · exact .inl (by simp [wrapped]; omega)

theorem getLast?_mapFound_wrapped (h : (Piece.sources ps).getLast?.any isBlank) :
    2 ≤ (Piece.mapFound wrapped ps).length ∨ (Piece.mapFound wrapped ps).getLast?.any isBlank := by
  rcases ps.eq_nil_or_concat with rfl | ⟨ps, c | t, rfl⟩
  · simp at h
  · exact .inr (by simpa [Piece.source] using h)
  · exact .inl (by simp [wrapped]; omega)

/-- The dollars before a barrier stay away from it. -/
theorem AwayFromEnd.mapFound (h : AwayFromEnd (Piece.sources ps))
    (hps : ∀ as t bs, ps = as ++ .found t :: bs → '$' ∉ t ∧ t ≠ [] ∧
      (Piece.sources bs).head?.any isBlank) : AwayFromEnd (Piece.mapFound wrapped ps) := by
  intro u v huv
  rcases Piece.exists_of_mapFound_eq huv with
    ⟨as, bs, rfl, -, rfl⟩ | ⟨as, t, bs, a, b, rfl, ht, -, rfl⟩
  · have hsplit : Piece.sources (as ++ .kept '$' :: bs) =
        Piece.sources as ++ '$' :: Piece.sources bs := by simp [Piece.source]
    rcases h _ _ hsplit with hlen | hblank
    · exact .inl (Nat.le_trans hlen (length_sources_le bs))
    · exact head?_mapFound_wrapped hblank
  · obtain ⟨hdollar, hne, hblank⟩ := hps as t bs rfl
    rcases of_wrapped_eq hdollar ht with ⟨-, rfl⟩ | ⟨-, rfl⟩
    · have := List.length_pos_iff.2 hne
      exact .inl (by simp; omega)
    · exact head?_mapFound_wrapped hblank

/-- The dollars after a barrier stay away from it. -/
theorem AwayFromStart.mapFound (h : AwayFromStart (Piece.sources ps))
    (hps : ∀ as t bs, ps = as ++ .found t :: bs → '$' ∉ t ∧ t ≠ [] ∧
      (Piece.sources as).getLast?.any isBlank) : AwayFromStart (Piece.mapFound wrapped ps) := by
  intro u v huv
  rcases Piece.exists_of_mapFound_eq huv with
    ⟨as, bs, rfl, rfl, -⟩ | ⟨as, t, bs, a, b, rfl, ht, rfl, -⟩
  · have hsplit : Piece.sources (as ++ .kept '$' :: bs) =
        Piece.sources as ++ '$' :: Piece.sources bs := by simp [Piece.source]
    rcases h _ _ hsplit with hlen | hblank
    · exact .inl (Nat.le_trans hlen (length_sources_le as))
    · exact getLast?_mapFound_wrapped hblank
  · obtain ⟨hdollar, hne, hblank⟩ := hps as t bs rfl
    rcases of_wrapped_eq hdollar ht with ⟨rfl, -⟩ | ⟨rfl, -⟩
    · rw [List.append_nil]
      exact getLast?_mapFound_wrapped hblank
    · have := List.length_pos_iff.2 hne
      exact .inl (by simp; omega)

/-! ## The passes around a barrier -/

section
variable {candidate : Text → Option Nat}

/-- A pass wraps before a barrier and after it, and keeps its dollars away from it. -/
theorem exists_wrapAll_barrier (hcand : candidate ∈ candidates) (hS : isBlank S = false)
    (hm : Barrier S m) (x z : Text) :
    ∃ x' z', wrapAll candidate S (x ++ (m ++ z)) = x' ++ (m ++ z') ∧
      x'.filter (· ≠ '$') = x.filter (· ≠ '$') ∧ z'.filter (· ≠ '$') = z.filter (· ≠ '$') ∧
      (AwayFromEnd x → AwayFromEnd x') ∧ (AwayFromStart z → AwayFromStart z') := by
  have hplaced := placed_pieces hcand S (x ++ (m ++ z))
  obtain ⟨qs, rs, hpieces, rfl, rfl⟩ := hm.exists_parts hplaced (sources_pieces hcand S _)
  rw [hpieces] at hplaced
  have hend : ∀ c, c = '$' ∨ c = S → isBlank c = false := by
    rintro c (rfl | rfl)
    · decide
    · exact hS
  have hne : ∀ {y t u}, InPlace S y t u → '$' ∉ t ∧ t ≠ [] := fun h => by
    obtain ⟨c, w, rfl, -⟩ := h.head
    exact ⟨h.dollar, List.cons_ne_nil c w⟩
  refine ⟨Piece.mapFound wrapped qs, Piece.mapFound wrapped rs, ?_, filter_mapFound_wrapped,
    filter_mapFound_wrapped, fun h => h.mapFound ?_, fun h => h.mapFound ?_⟩
  · rw [wrapAll_eq, hpieces]
    simp
  · rintro as t bs rfl
    have hin := hplaced as t (bs ++ (Piece.keep m ++ rs)) (by simp)
    refine ⟨(hne hin).1, (hne hin).2, ?_⟩
    obtain ⟨c, hc, hfirst⟩ := hm.head
    obtain ⟨m, rfl⟩ := List.head?_eq_some_iff.1 hc
    have hafter := hin.after
    rw [Piece.sources_append, Piece.sources_append, Piece.sources_keep] at hafter
    cases hbs : Piece.sources bs with
    | nil => simp [hbs, atBreak, hend c hfirst] at hafter
    | cons d w => simpa [hbs, atBreak] using hafter
  · rintro as t bs rfl
    have hin := hplaced (qs ++ (Piece.keep m ++ as)) t bs (by simp)
    refine ⟨(hne hin).1, (hne hin).2, ?_⟩
    obtain ⟨d, hd, hlast⟩ := hm.last
    have hbefore := hin.before
    rw [List.nil_append, Piece.sources_append, Piece.sources_append, Piece.sources_keep] at hbefore
    rcases (Piece.sources as).eq_nil_or_concat with has | ⟨w, e, has⟩
    · simp [has, hd, hend d hlast] at hbefore
    · rw [has] at hbefore ⊢
      simpa [← List.append_assoc] using hbefore

/-- **All passes leave a barrier alone.** -/
theorem wrapBareMath_barrier (hS : isBlank S = false) (hm : Barrier S m) (hx : '$' ∉ x)
    (hz : '$' ∉ z) : ∃ x' z', wrapBareMath S (x ++ (m ++ z)) = x' ++ (m ++ z') ∧
      x'.filter (· ≠ '$') = x ∧ z'.filter (· ≠ '$') = z ∧ AwayFromEnd x' ∧ AwayFromStart z' := by
  have key : ∀ l : List (Text → Option Nat), (∀ candidate ∈ l, candidate ∈ candidates) →
      ∀ x z, AwayFromEnd x → AwayFromStart z →
        ∃ x' z', l.foldl (fun s candidate => wrapAll candidate S s) (x ++ (m ++ z)) =
          x' ++ (m ++ z') ∧ x'.filter (· ≠ '$') = x.filter (· ≠ '$') ∧
          z'.filter (· ≠ '$') = z.filter (· ≠ '$') ∧ AwayFromEnd x' ∧ AwayFromStart z' := by
    intro l
    induction l with
    | nil => exact fun _ x z hx hz => ⟨x, z, rfl, rfl, rfl, hx, hz⟩
    | cons candidate l ih =>
      intro hl x z hx hz
      rw [List.forall_mem_cons] at hl
      obtain ⟨x₁, z₁, hout, hx₁, hz₁, hend, hstart⟩ := exists_wrapAll_barrier hl.1 hS hm x z
      obtain ⟨x₂, z₂, hout', hx₂, hz₂, haway⟩ := ih hl.2 x₁ z₁ (hend hx) (hstart hz)
      exact ⟨x₂, z₂, by rw [List.foldl_cons, hout, hout'], hx₂.trans hx₁, hz₂.trans hz₁, haway⟩
  have hstay : ∀ s : Text, '$' ∉ s → s.filter (· ≠ '$') = s := fun s hs =>
    List.filter_eq_self.2 fun c hc => decide_eq_true fun h => hs (h ▸ hc)
  have hxaway : AwayFromEnd x := by
    rintro u v rfl
    simp at hx
  have hzaway : AwayFromStart z := by
    rintro u v rfl
    simp at hz
  have hall := key candidates (fun _ h => h) x z hxaway hzaway
  rwa [hstay x hx, hstay z hz] at hall

end

end Wrap

end MarkdownPrep
