import MarkdownPrep.Dollar.Span
import MarkdownPrep.Proofs.Text.Pieces

/-!
# Dollars that pair

`Dollar.Pairs x body y` says that two dollars with `body` between them, after `x` and before `y`,
are a pair: what counts is the characters next to a dollar and the line ends between the two. The
recogniser of dollar spans finds a span at a place if and only if a pair is there
(`Dollar.recogniser_eq_some_iff`), and the first dollar of a pair decides which is the second
(`Dollar.Pairs.unique`).
-/

namespace MarkdownPrep.Dollar

/-- A stretch in single dollars. -/
def span (body : Text) : Text := '$' :: body ++ ['$']

@[simp] theorem interior_span (body : Text) : interior (span body) = body := by
  have hlen : (span body).length - 1 = (body ++ ['$']).length := by simp [span]
  simp [interior, Text.inner, span]

@[simp] theorem getLast?_append_span (x body : Text) : (x ++ span body).getLast? = some '$' := by
  rw [span, ← List.append_assoc]
  exact List.getLast?_concat

/-- The dollars around `body` are a pair where `x` stands before the first one and `y` after the
second one. -/
structure Pairs (x body y : Text) : Prop where
  unescaped : x.getLast? ≠ some '\\'
  undoubled : x.getLast? ≠ some '$'
  opens : (body ++ ['$']).head? ≠ some '$'
  oneLine : '\n' ∉ body
  /-- A dollar between them is escaped. -/
  between : ∀ u v, body = u ++ '$' :: v → u.getLast? = some '\\'
  closes : body.getLast? ≠ some '\\'
  ends : y.head? ≠ some '$'

theorem Pairs.head?_ne {x body y : Text} (h : Pairs x body y) :
    (body ++ '$' :: y).head? ≠ some '$' := by
  have := h.opens
  cases body <;> exact this

/-! ## The interior of a span -/

theorem getD_getLast?_cons (c b : Char) (u : Text) :
    (c :: u).getLast?.getD b = u.getLast?.getD c := by
  rw [List.getLast?_cons]
  rfl

/-- The character before a place that follows a dollar is a backslash only if it is no dollar. -/
theorem getD_getLast?_eq_backslash {u : Text} :
    u.getLast?.getD '$' = '\\' ↔ u.getLast? = some '\\' := by
  cases u.getLast? <;> simp

section
variable {b : Char} {body y t : Text}

/-- A stretch on one line is read up to the dollar after it if the dollars in it are escaped, given
the character `b` before it, and that dollar is not. -/
theorem interior?_append (hline : '\n' ∉ body)
    (hbetween : ∀ u v, body = u ++ '$' :: v → u.getLast?.getD b = '\\')
    (hlast : body.getLast?.getD b ≠ '\\') (hy : y.head? ≠ some '$') :
    interior? b (body ++ '$' :: y) = some body := by
  induction body generalizing b with
  | nil => simpa [interior?, hy] using hlast
  | cons c body ih =>
    rw [List.mem_cons, not_or] at hline
    have hescaped : c = '$' → b = '\\' := fun hc => hbetween [] body (hc ▸ rfl)
    have hrest := ih (b := c) hline.2
      (fun u v hbody => getD_getLast?_cons c b u ▸ hbetween (c :: u) v (hbody ▸ rfl))
      (getD_getLast?_cons c b body ▸ hlast)
    rw [List.cons_append, interior?, if_neg (Ne.symm hline.1), if_neg (by simpa using hescaped), hrest]
    rfl

/-- Only such a stretch is read. -/
theorem exists_of_interior? (h : interior? b t = some body) :
    ∃ y, t = body ++ '$' :: y ∧ '\n' ∉ body ∧
      (∀ u v, body = u ++ '$' :: v → u.getLast?.getD b = '\\') ∧
      body.getLast?.getD b ≠ '\\' ∧ y.head? ≠ some '$' := by
  induction t generalizing b body with
  | nil => cases h
  | cons c t ih =>
    rw [interior?] at h
    split at h
    · cases h
    · next hline =>
      split at h
      · next hcloses =>
        simp only [ne_eq, Bool.and_eq_true, decide_eq_true_eq] at hcloses
        split at h
        · cases h
        · next hdouble =>
          cases h
          exact ⟨t, by rw [hcloses.1]; rfl, List.not_mem_nil, by simp, hcloses.2, hdouble⟩
      · next hopen =>
        obtain ⟨body, hbody, rfl⟩ := Option.map_eq_some_iff.1 h
        obtain ⟨y, rfl, hrest, hbetween, hlast, hy⟩ := ih hbody
        refine ⟨y, rfl, by simp [hrest, Ne.symm hline], ?_, ?_, hy⟩
        · intro u v hsplit
          cases u with
          | nil =>
            obtain ⟨rfl, -⟩ := List.cons.inj hsplit
            simpa using hopen
          | cons d u =>
            obtain ⟨rfl, rfl⟩ := List.cons.inj hsplit
            rw [getD_getLast?_cons]
            exact hbetween u v rfl
        · rwa [getD_getLast?_cons]

end

/-! ## The spans that are found -/

section
variable {x s t body y : Text} {ps : List Piece}

theorem recogniser_of_ne {before : Option Char} {c : Char} (hc : c ≠ '$') :
    recogniser before (c :: s) = none := by
  rw [recogniser]
  intro t ht
  exact hc (List.cons.inj ht).1

theorem recogniser_dollar_eq_none_iff {before : Option Char} : recogniser before ('$' :: s) = none ↔
    before = some '\\' ∨ before = some '$' ∨ s.head? = some '$' ∨ interior? '$' s = none := by
  rw [recogniser]
  by_cases hopens : (before = some '\\' || before = some '$' || s.head? = some '$') = true
  · rw [if_pos hopens]
    simp only [Bool.or_eq_true, decide_eq_true_eq, or_assoc] at hopens
    exact iff_of_true rfl (hopens.imp_right (.imp_right .inl))
  · rw [if_neg hopens, Option.map_eq_none_iff]
    simp only [Bool.or_eq_true, decide_eq_true_eq, not_or] at hopens
    simp [hopens.1.1, hopens.1.2, hopens.2]

/-- **A span is found at a place if and only if a pair of dollars is there.** -/
theorem recogniser_eq_some_iff : recogniser x.getLast? t = some ps ↔
    ∃ body y, t = span body ++ y ∧ Pairs x body y ∧ ps = [.found (span body)] := by
  constructor
  · intro h
    unfold recogniser at h
    split at h
    · next t =>
      split at h
      · cases h
      · next hopens =>
        simp only [Bool.or_eq_true, decide_eq_true_eq, not_or] at hopens
        obtain ⟨⟨hunescaped, hundoubled⟩, hopens⟩ := hopens
        obtain ⟨body, hbody, rfl⟩ := Option.map_eq_some_iff.1 h
        obtain ⟨y, rfl, hline, hbetween, hlast, hy⟩ := exists_of_interior? hbody
        simp only [getD_getLast?_eq_backslash, ne_eq] at hbetween hlast
        have hfirst : (body ++ ['$']).head? ≠ some '$' := by cases body <;> exact hopens
        exact ⟨body, y, by simp [span],
          ⟨hunescaped, hundoubled, hfirst, hline, hbetween, hlast, hy⟩, rfl⟩
    · cases h
  · rintro ⟨body, y, rfl, h, rfl⟩
    have hbody : interior? '$' (body ++ '$' :: y) = some body :=
      interior?_append h.oneLine (fun u v huv => getD_getLast?_eq_backslash.2 (h.between u v huv))
        (mt getD_getLast?_eq_backslash.1 h.closes) h.ends
    have hspan : span body ++ y = '$' :: (body ++ '$' :: y) := by simp [span]
    rw [hspan, recogniser]
    simp only [h.unescaped, h.undoubled, h.head?_ne, decide_false, Bool.or_self, Bool.false_eq_true,
      if_false, hbody]
    rfl

/-- The first dollar of a pair decides which one is the second. -/
theorem Pairs.unique {body' y' : Text} (h : Pairs x body y) (h' : Pairs x body' y')
    (hsplit : span body ++ y = span body' ++ y') : body = body' := by
  have hfound := recogniser_eq_some_iff.2 ⟨body, y, rfl, h, rfl⟩
  rw [recogniser_eq_some_iff.2 ⟨body', y', hsplit, h', rfl⟩] at hfound
  simpa [span] using hfound.symm

theorem single_recogniser : recogniser.Single := by
  intro before s ps h
  unfold recogniser at h
  split at h
  · split at h
    · cases h
    · obtain ⟨body, -, rfl⟩ := Option.map_eq_some_iff.1 h
      exact ⟨_, rfl⟩
  · cases h

/-- **What is found is a pair of dollars and what stands between them.** -/
theorem placed_pairs (s : Text) :
    Piece.Placed (fun x t y => ∃ body, t = span body ∧ Pairs x body y) [] (spans s) := by
  refine Text.placed_cut honest_recogniser (fun x u v ps hps hu => ?_) s
  obtain ⟨body, y, hsplit, hpairs, rfl⟩ := recogniser_eq_some_iff.1 hps
  obtain rfl : span body = u := by simpa [Piece.source] using hu
  obtain rfl := List.append_cancel_left hsplit
  exact Piece.placed_found_cons.2 ⟨⟨body, rfl, hpairs⟩, Piece.placed_nil⟩

theorem exists_span_of_mem_founds (h : t ∈ Piece.founds (spans s)) : ∃ body, t = span body := by
  have hplaced : Piece.Placed (fun _ t _ => ∃ body, t = span body) [] (spans s) :=
    (placed_pairs s).mono fun _ _ _ ⟨body, ht, _⟩ => ⟨body, ht⟩
  exact Piece.forall_founds_of_placed hplaced t h

end

end MarkdownPrep.Dollar
