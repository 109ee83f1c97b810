import MarkdownPrep.Proofs.Offsets.Dollar

/-!
# The leftmost dollar spans

Two dollars of a text are a pair if they may delimit inline math (`Offsets.IsPair`). Pairs may
overlap: the second dollar of one may be the first of another. The scanner takes a pair from left to
right wherever none taken before reaches over it, which decides the spans (`Offsets.Leftmost`).
-/

namespace MarkdownPrep.Offsets

open Text

variable {s x t u v : Text} {i j : Nat} {es es' : List Extent}

/-- The dollars at the offsets `i` and `j` of a text are a pair. -/
def IsPair (s : Text) (i j : Nat) : Prop :=
  ∃ x body y, s = x ++ (Dollar.span body ++ y) ∧ utf8Size x = i ∧
    utf8Size (x ++ '$' :: body) = j ∧ Dollar.Pairs x body y

/-- Some of the stretches has the offset `i` in it. -/
def Covers (es : List Extent) (i : Nat) : Prop := ∃ e ∈ es, e.start ≤ i ∧ i < e.stop

/-- The leftmost pairs of a text: pairs one after another, such that none of the others begins
outside of them. -/
structure Leftmost (s : Text) (es : List Extent) : Prop where
  pairs : ∀ e ∈ es, ∃ j, e.stop = j + 1 ∧ IsPair s e.start j
  inOrder : es.Pairwise fun e e' => e.stop ≤ e'.start
  complete : ∀ i j, IsPair s i j → Covers es i

/-! ## Pairs -/

theorem IsPair.lt (h : IsPair s i j) : i < j := by
  obtain ⟨x, body, y, -, rfl, rfl, -⟩ := h
  have := ('$' : Char).utf8Size_pos
  rw [utf8Size_append, utf8Size_cons]
  omega

/-- The first dollar of a pair decides which one is the second. -/
theorem IsPair.unique {j' : Nat} (h : IsPair s i j) (h' : IsPair s i j') : j = j' := by
  obtain ⟨x, body, y, rfl, rfl, rfl, hpairs⟩ := h
  obtain ⟨x', body', y', hsplit, hsize, rfl, hpairs'⟩ := h'
  obtain ⟨rfl, hspan⟩ := append_inj_of_utf8Size hsplit hsize.symm
  rw [hpairs.unique hpairs' hspan]

namespace Leftmost

theorem start_lt_stop (h : Leftmost s es) : ∀ e ∈ es, e.start < e.stop := by
  intro e he
  obtain ⟨j, hstop, hpair⟩ := h.pairs e he
  have := hpair.lt
  omega

/-- Each stretch begins in one of any other leftmost pairs. -/
theorem covers_start (h : Leftmost s es) (h' : Leftmost s es') :
    ∀ e ∈ es, Covers es' e.start := by
  intro e he
  obtain ⟨j, -, hpair⟩ := h.pairs e he
  exact h'.complete _ j hpair

theorem eq_of_start_eq (h : Leftmost s es) (h' : Leftmost s es') :
    ∀ e ∈ es, ∀ e' ∈ es', e.start = e'.start → e = e' := by
  rintro ⟨i, stop⟩ he ⟨i', stop'⟩ he' heq
  obtain ⟨j, rfl, hpair⟩ := h.pairs _ he
  obtain ⟨j', rfl, hpair'⟩ := h'.pairs _ he'
  cases heq
  rw [hpair.unique hpair']

end Leftmost

/-! ## There is only one choice -/

theorem start_le_of_covers {e : Extent} (hpos : e.start < e.stop)
    (horder : (e :: es).Pairwise fun e e' => e.stop ≤ e'.start) (h : Covers (e :: es) i) :
    e.start ≤ i := by
  obtain ⟨f, hf, hle, -⟩ := h
  obtain rfl | hf := List.mem_cons.1 hf
  · exact hle
  · have := (List.pairwise_cons.1 horder).1 f hf
    omega

/-- What the stretches after the first one have in them. -/
theorem Covers.tail {e : Extent} (h : Covers (e :: es) i) (hi : e.stop ≤ i) : Covers es i := by
  obtain ⟨f, hf, hle, hlt⟩ := h
  obtain rfl | hf := List.mem_cons.1 hf
  · omega
  · exact ⟨f, hf, hle, hlt⟩

/-- Stretches one after another are the same as others if each begins in one of the others and
those that begin together are the same. -/
theorem eq_of_covers_start
    (hpos : ∀ e ∈ es, e.start < e.stop) (hpos' : ∀ e ∈ es', e.start < e.stop)
    (horder : es.Pairwise fun e e' => e.stop ≤ e'.start)
    (horder' : es'.Pairwise fun e e' => e.stop ≤ e'.start)
    (hcovers : ∀ e ∈ es, Covers es' e.start) (hcovers' : ∀ e ∈ es', Covers es e.start)
    (hsame : ∀ e ∈ es, ∀ e' ∈ es', e.start = e'.start → e = e') : es = es' := by
  induction es generalizing es' with
  | nil =>
    cases es' with
    | nil => rfl
    | cons e' es' =>
      obtain ⟨e, he, -⟩ := hcovers' e' List.mem_cons_self
      cases he
  | cons e es ih =>
    cases es' with
    | nil =>
      obtain ⟨e', he', -⟩ := hcovers e List.mem_cons_self
      cases he'
    | cons e' es' =>
      -- neither of the first ones begins before the other
      have hle := start_le_of_covers (hpos' e' List.mem_cons_self) horder'
        (hcovers e List.mem_cons_self)
      have hle' := start_le_of_covers (hpos e List.mem_cons_self) horder
        (hcovers' e' List.mem_cons_self)
      obtain rfl := hsame e List.mem_cons_self e' List.mem_cons_self (Nat.le_antisymm hle' hle)
      rw [List.pairwise_cons] at horder horder'
      rw [ih (fun f hf => hpos f (List.mem_cons_of_mem _ hf))
        (fun f hf => hpos' f (List.mem_cons_of_mem _ hf)) horder.2 horder'.2
        (fun f hf => (hcovers f (List.mem_cons_of_mem _ hf)).tail (horder.1 f hf))
        (fun f hf => (hcovers' f (List.mem_cons_of_mem _ hf)).tail (horder'.1 f hf))
        fun f hf f' hf' => hsame f (List.mem_cons_of_mem _ hf) f' (List.mem_cons_of_mem _ hf')]

theorem Leftmost.eq (h : Leftmost s es) (h' : Leftmost s es') : es = es' :=
  eq_of_covers_start h.start_lt_stop h'.start_lt_stop h.inOrder h'.inOrder (h.covers_start h')
    (h'.covers_start h) (h.eq_of_start_eq h')

/-! ## The scanner makes it -/

/-- The spans that the scanner finds from a place on. -/
def extentsAfter (x t : Text) : List Extent :=
  (Piece.spansFrom (utf8Size x) (cutAfter Dollar.recogniser x t)).map Extent.ofSpan

theorem extentsAfter_of_none {c : Char} (h : Dollar.recogniser x.getLast? (c :: t) = none) :
    extentsAfter x (c :: t) = extentsAfter (x ++ [c]) t := by
  rw [extentsAfter, cutAfter_of_none h, Piece.spansFrom, ← utf8Size_concat, extentsAfter]

theorem utf8Size_append_span (x body : Text) :
    utf8Size (x ++ Dollar.span body) = utf8Size (x ++ '$' :: body) + 1 := by
  have hspan : x ++ Dollar.span body = x ++ '$' :: body ++ ['$'] := by simp [Dollar.span]
  rw [hspan]
  exact utf8Size_concat (x ++ '$' :: body) '$'

theorem extentsAfter_of_pairs {body y : Text} (h : Dollar.Pairs x body y) :
    extentsAfter x (Dollar.span body ++ y) =
      ⟨utf8Size x, utf8Size (x ++ '$' :: body) + 1⟩ :: extentsAfter (x ++ Dollar.span body) y := by
  have hcut := cutAfter_append_of_found Dollar.honest_recogniser
    (Dollar.recogniser_eq_some_iff.2 ⟨body, y, rfl, h, rfl⟩)
  rw [extentsAfter, hcut, Piece.spansFrom, ← utf8Size_append, List.map_cons, Extent.ofSpan,
    utf8Size_append_span]
  simp only [extentsAfter, utf8Size_append_span]

/-- A span is a pair. -/
theorem exists_isPair_of_mem (x t : Text) :
    ∀ e ∈ extentsAfter x t, ∃ j, e.stop = j + 1 ∧ IsPair (x ++ t) e.start j := by
  refine cut_induction Dollar.honest_recogniser (r := Dollar.recogniser)
    (motive := fun x t _ => ∀ e ∈ extentsAfter x t,
      ∃ j, e.stop = j + 1 ∧ IsPair (x ++ t) e.start j) ?_ ?_ ?_ x t
  · exact fun x e he => nomatch he
  · intro x c t hnone ih e he
    rw [extentsAfter_of_none hnone] at he
    simpa using ih e he
  · rintro x u v ps hps rfl ih e he
    obtain ⟨body, y, hsplit, hpairs, rfl⟩ := Dollar.recogniser_eq_some_iff.1 hps
    obtain rfl : v = y := by simpa [Piece.source] using hsplit
    rw [hsplit, extentsAfter_of_pairs hpairs] at he
    obtain rfl | he := List.mem_cons.1 he
    · exact ⟨_, rfl, x, body, v, by rw [hsplit], rfl, rfl, hpairs⟩
    · simpa [Piece.source] using ih e (by simpa [Piece.source] using he)

/-- The first dollar of a pair lies in a span. -/
theorem covers_of_pairs (x t : Text) : ∀ z body y, t = z ++ (Dollar.span body ++ y) →
    Dollar.Pairs (x ++ z) body y → Covers (extentsAfter x t) (utf8Size (x ++ z)) := by
  refine cut_induction Dollar.honest_recogniser (r := Dollar.recogniser)
    (motive := fun x t _ => ∀ z body y, t = z ++ (Dollar.span body ++ y) →
      Dollar.Pairs (x ++ z) body y → Covers (extentsAfter x t) (utf8Size (x ++ z))) ?_ ?_ ?_ x t
  · intro x z body y hsplit
    simp [Dollar.span] at hsplit
  · intro x c t hnone ih z body y hsplit hpairs
    rw [extentsAfter_of_none hnone]
    cases z with
    | nil =>
      -- a pair at the place itself would have been found
      rw [List.append_nil] at hpairs
      rw [Dollar.recogniser_eq_some_iff.2 ⟨body, y, hsplit, hpairs, rfl⟩] at hnone
      cases hnone
    | cons d z =>
      obtain ⟨rfl, rfl⟩ := List.cons.inj hsplit
      simpa using ih z body y rfl (by simpa using hpairs)
  · rintro x u v ps hps rfl ih z body y hsplit hpairs
    obtain ⟨body', y', hfound, hpairs', rfl⟩ := Dollar.recogniser_eq_some_iff.1 hps
    obtain rfl : v = y' := by simpa [Piece.source] using hfound
    rw [hfound] at hsplit ⊢
    rw [extentsAfter_of_pairs hpairs']
    rcases after_or_inside hsplit with ⟨z, rfl, hz⟩ | ⟨w, hw, hspan, -⟩
    · obtain ⟨e, he, hcovers⟩ := ih z body y hz (by simpa [Piece.source] using hpairs)
      exact ⟨e, List.mem_cons_of_mem _ (by simpa [Piece.source] using he),
        by simpa [Piece.source] using hcovers⟩
    · have hpos := Nat.pos_of_ne_zero (mt utf8Size_eq_zero_iff.1 hw)
      have hstop := utf8Size_append_span x body'
      rw [hspan, utf8Size_append, utf8Size_append] at hstop
      refine ⟨_, List.mem_cons_self, ?_, ?_⟩ <;> simp only [utf8Size_append x z] <;> omega

theorem leftmost_extentsAfter (s : Text) : Leftmost s (extentsAfter [] s) where
  pairs := exists_isPair_of_mem [] s
  inOrder := (Piece.pairwise_spansFrom 0 _).map _ fun _ _ h => h
  complete := by
    rintro i j ⟨x, body, y, rfl, rfl, -, hpairs⟩
    exact covers_of_pairs [] _ x body y rfl hpairs

/-- **The scanner finds the leftmost pairs of a text**, and these are the only ones. -/
theorem spans?_eq_leftmost (s : Text) :
    ∃ es, spans? s = some es ∧ ∀ es', Leftmost s es' ↔ es' = es :=
  ⟨_, spans?_eq s, fun _ => ⟨fun h => h.eq (leftmost_extentsAfter s),
    fun h => h ▸ leftmost_extentsAfter s⟩⟩

end MarkdownPrep.Offsets
