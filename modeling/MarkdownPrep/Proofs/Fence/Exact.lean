import MarkdownPrep.Fence.Block

/-!
# The blocks of a text are its fenced blocks

`IsFenced` says of a block, by the lines of its text, that it is fenced there: it starts with an
opening line and ends after the first later line that closes it, or at the end of the text if none
does. `Exact` asks that blocks are fenced, stand one after another, and leave out no opening line.
The blocks of a text are exact, and no other blocks are (`exact_iff`). Both directions follow the
lines as they are read (`Scanned`).
-/

namespace MarkdownPrep.Fence

/-- What a line of a text opens. -/
abbrev openingOf? (line : Text) : Option Opening := opening? (Text.dropOneEnd '\n' line)

/-- A line of a text closes the fence that `o` opens. -/
abbrev Opening.EndsAt (o : Opening) (line : Text) : Prop := o.endsAt (Text.dropOneEnd '\n' line)

/-- A block is fenced among some lines, the first of which starts at byte `n`. -/
inductive IsFenced (n : Nat) (lines : List Text) : Block → Prop
  /-- The block ends with the first line that closes it. -/
  | closed {before mid after : List Text} {first last : Text} {o : Opening}
      (hlines : lines = before ++ first :: (mid ++ last :: after))
      (hopening : openingOf? first = some o) (hmid : ∀ l ∈ mid, ¬ o.EndsAt l)
      (hlast : o.EndsAt last) :
      IsFenced n lines
        { start := n + Text.utf8Size before.flatten
          stop := n + Text.utf8Size (before ++ first :: (mid ++ [last])).flatten
          text := (first :: (mid ++ [last])).flatten
          closed := true }
  /-- No line closes the block, and it ends with the text. -/
  | unclosed {before mid : List Text} {first : Text} {o : Opening}
      (hlines : lines = before ++ first :: mid)
      (hopening : openingOf? first = some o) (hmid : ∀ l ∈ mid, ¬ o.EndsAt l) :
      IsFenced n lines
        { start := n + Text.utf8Size before.flatten
          stop := n + Text.utf8Size lines.flatten
          text := (first :: mid).flatten
          closed := false }

/-- Blocks are exactly the fenced blocks among some lines, the first of which starts at byte `n`. -/
structure Exact (n : Nat) (lines : List Text) (bs : List Block) : Prop where
  fenced : ∀ b ∈ bs, IsFenced n lines b
  nonempty : ∀ b ∈ bs, b.start < b.stop
  inside : ∀ b ∈ bs, n ≤ b.start ∧ b.stop ≤ n + Text.utf8Size lines.flatten
  inOrder : bs.Pairwise fun a b => a.stop ≤ b.start
  closed : ∀ b ∈ bs.dropLast, b.closed
  /-- A line that starts outside all blocks opens no fence. -/
  complete : ∀ before line after, lines = before ++ line :: after →
    (∀ b ∈ bs, n + Text.utf8Size before.flatten < b.start ∨
      b.stop ≤ n + Text.utf8Size before.flatten) → openingOf? line = none

/-! ## Reading lines -/

/-- The blocks that are found when lines are read one by one from byte `n` on. -/
inductive Scanned : Nat → List Text → List Block → Prop
  | done {n : Nat} : Scanned n [] []
  | prose {n : Nat} {line : Text} {lines : List Text} {bs : List Block}
      (hopening : openingOf? line = none) (hrest : Scanned (n + Text.utf8Size line) lines bs) :
      Scanned n (line :: lines) bs
  | closed {n : Nat} {first last : Text} {mid lines : List Text} {o : Opening} {bs : List Block}
      (hopening : openingOf? first = some o) (hmid : ∀ l ∈ mid, ¬ o.EndsAt l)
      (hlast : o.EndsAt last)
      (hrest : Scanned (n + Text.utf8Size (first :: (mid ++ [last])).flatten) lines bs) :
      Scanned n (first :: (mid ++ [last]) ++ lines)
        (⟨⟨n, n + Text.utf8Size (first :: (mid ++ [last])).flatten,
          (first :: (mid ++ [last])).flatten⟩, true⟩ :: bs)
  | unclosed {n : Nat} {first : Text} {mid : List Text} {o : Opening}
      (hopening : openingOf? first = some o) (hmid : ∀ l ∈ mid, ¬ o.EndsAt l) :
      Scanned n (first :: mid)
        [⟨⟨n, n + Text.utf8Size (first :: mid).flatten, (first :: mid).flatten⟩, false⟩]

/-- An open block goes on to the first line that closes it, or to the end. -/
theorem segmentsFrom_some (o : Opening) (t : Text) (lines : List Text) :
    (∃ mid last rest, lines = mid ++ last :: rest ∧ (∀ l ∈ mid, ¬ o.EndsAt l) ∧ o.EndsAt last ∧
      segmentsFrom (some (o, t)) lines =
        .block (t ++ (mid ++ [last]).flatten) true :: segmentsFrom none rest) ∨
    ((∀ l ∈ lines, ¬ o.EndsAt l) ∧
      segmentsFrom (some (o, t)) lines = [.block (t ++ lines.flatten) false]) := by
  induction lines generalizing t with
  | nil => exact .inr ⟨by simp, by simp [segmentsFrom]⟩
  | cons line lines ih =>
    by_cases hend : o.EndsAt line
    · exact .inl ⟨[], line, lines, rfl, by simp, hend, by simp [segmentsFrom, hend]⟩
    · obtain ⟨mid, last, rest, rfl, hmid, hlast, hsegs⟩ | ⟨hmid, hsegs⟩ := ih (t ++ line)
      · refine .inl ⟨line :: mid, last, rest, rfl, List.forall_mem_cons.2 ⟨hend, hmid⟩, hlast, ?_⟩
        rw [segmentsFrom, if_neg hend, hsegs]
        simp
      · refine .inr ⟨List.forall_mem_cons.2 ⟨hend, hmid⟩, ?_⟩
        rw [segmentsFrom, if_neg hend, hsegs]
        simp

theorem segmentsFrom_of_prose {line : Text} (h : openingOf? line = none) (lines : List Text) :
    segmentsFrom none (line :: lines) = .prose line :: segmentsFrom none lines := by
  unfold openingOf? at h
  rw [segmentsFrom, h]

theorem segmentsFrom_of_opening {line : Text} {o : Opening} (h : openingOf? line = some o)
    (lines : List Text) :
    segmentsFrom none (line :: lines) = segmentsFrom (some (o, line)) lines := by
  unfold openingOf? at h
  rw [segmentsFrom, h]

theorem scanned_segmentsFrom (n : Nat) (lines : List Text) :
    Scanned n lines (blocksFrom n (segmentsFrom none lines)) := by
  induction hk : lines.length using Nat.strongRecOn generalizing n lines with
  | ind k ih =>
    cases lines with
    | nil => exact .done
    | cons line lines =>
      cases hopening : openingOf? line with
      | none =>
        rw [segmentsFrom_of_prose hopening]
        exact .prose hopening (ih _ (by simp [← hk]) _ _ rfl)
      | some o =>
        rw [segmentsFrom_of_opening hopening]
        obtain ⟨mid, last, rest, rfl, hmid, hlast, hsegs⟩ | ⟨hmid, hsegs⟩ :=
          segmentsFrom_some o line lines
        · rw [hsegs]
          have hrest := ih rest.length (by simp [← hk]; omega)
            (n + Text.utf8Size (line :: (mid ++ [last])).flatten) rest rfl
          simpa [blocksFrom] using Scanned.closed hopening hmid hlast hrest
        · rw [hsegs]
          exact .unclosed hopening hmid

/-! ## What is read is exact -/

theorem ne_nil_of_opening {line : Text} {o : Opening} (h : openingOf? line = some o) :
    line ≠ [] := by
  rintro rfl
  cases h

theorem utf8Size_pos {s : Text} (h : s ≠ []) : 0 < Text.utf8Size s := by
  cases s with
  | nil => exact absurd rfl h
  | cons c s =>
    have := c.utf8Size_pos
    rw [Text.utf8Size_cons]
    omega

theorem IsFenced.start_lt_stop {n : Nat} {lines : List Text} {b : Block} (h : IsFenced n lines b) :
    b.start < b.stop := by
  cases h with
  | closed hlines hopening =>
    have := utf8Size_pos (ne_nil_of_opening hopening)
    simp
    omega
  | unclosed hlines hopening =>
    have := utf8Size_pos (ne_nil_of_opening hopening)
    simp [hlines]
    omega

theorem IsFenced.within {n : Nat} {lines : List Text} {b : Block} (h : IsFenced n lines b) :
    n ≤ b.start ∧ b.stop ≤ n + Text.utf8Size lines.flatten := by
  cases h with
  | closed hlines => simp [hlines]
  | unclosed hlines => simp

/-- A block that is fenced among some lines is fenced when more lines stand before them. -/
theorem IsFenced.append {n : Nat} {before lines : List Text} {b : Block}
    (h : IsFenced (n + Text.utf8Size before.flatten) lines b) : IsFenced n (before ++ lines) b := by
  cases h with
  | @closed before' mid after first last o hlines hopening hmid hlast =>
    have hlines' : before ++ lines = (before ++ before') ++ first :: (mid ++ last :: after) := by
      rw [hlines, List.append_assoc]
    simpa [Nat.add_assoc] using IsFenced.closed (n := n) hlines' hopening hmid hlast
  | @unclosed before' mid first o hlines hopening hmid =>
    have hlines' : before ++ lines = (before ++ before') ++ first :: mid := by
      rw [hlines, List.append_assoc]
    simpa [Nat.add_assoc] using IsFenced.unclosed (n := n) hlines' hopening hmid

theorem exact_nil (n : Nat) : Exact n [] [] where
  fenced := by simp
  nonempty := by simp
  inside := by simp
  inOrder := .nil
  closed := by simp
  complete := by simp

theorem Exact.prose {n : Nat} {line : Text} {lines : List Text} {bs : List Block}
    (hopening : openingOf? line = none) (h : Exact (n + Text.utf8Size line) lines bs) :
    Exact n (line :: lines) bs where
  fenced b hb := by
    have hb' : IsFenced (n + Text.utf8Size [line].flatten) lines b := by simpa using h.fenced b hb
    exact hb'.append
  nonempty := h.nonempty
  inside b hb := by
    have := h.inside b hb
    simp
    omega
  inOrder := h.inOrder
  closed := h.closed
  complete before line' after hlines hout := by
    cases before with
    | nil =>
      cases hlines
      exact hopening
    | cons _ before =>
      obtain ⟨rfl, rfl⟩ := List.cons_eq_cons.1 hlines
      refine h.complete before line' after rfl fun b hb => ?_
      simpa [Nat.add_assoc] using hout b hb

/-- A block and the blocks of the lines after it, if there are any. -/
theorem Exact.cons {n : Nat} {taken lines : List Text} {b : Block} {bs : List Block}
    (hb : IsFenced n (taken ++ lines) b) (hstart : b.start = n)
    (hstop : b.stop = n + Text.utf8Size taken.flatten) (hclosed : bs ≠ [] → b.closed)
    (h : Exact (n + Text.utf8Size taken.flatten) lines bs) :
    Exact n (taken ++ lines) (b :: bs) where
  fenced := List.forall_mem_cons.2 ⟨hb, fun c hc => (h.fenced c hc).append⟩
  nonempty := List.forall_mem_cons.2 ⟨hb.start_lt_stop, h.nonempty⟩
  inside := List.forall_mem_cons.2 ⟨hb.within, fun c hc => (h.fenced c hc).append.within⟩
  inOrder := List.pairwise_cons.2 ⟨fun c hc => hstop ▸ (h.inside c hc).1, h.inOrder⟩
  closed c hc := by
    cases bs with
    | nil => simp at hc
    | cons d bs =>
      rw [List.dropLast_cons_of_ne_nil (List.cons_ne_nil d bs), List.mem_cons] at hc
      obtain rfl | hc := hc
      · exact hclosed (List.cons_ne_nil d bs)
      · exact h.closed c hc
  complete before line after hlines hout := by
    obtain ⟨hb', hout⟩ := List.forall_mem_cons.1 hout
    obtain ⟨before', rfl, hlines'⟩ | ⟨mid, rfl, hmid⟩ := List.append_eq_append_iff.1 hlines
    · refine h.complete before' line after hlines' fun c hc => ?_
      simpa [Nat.add_assoc] using hout c hc
    · cases mid with
      | nil => exact h.complete [] line after hmid.symm fun c hc => by simpa using hout c hc
      | cons l mid =>
        -- the line starts before the end of the block, so only an empty line is outside
        obtain ⟨rfl, rfl⟩ := List.cons_eq_cons.1 hmid
        cases line with
        | nil => rfl
        | cons a line =>
          have := a.utf8Size_pos
          simp at hb' hstop
          omega

/-- Lines that are read one by one give exact blocks. -/
theorem Scanned.exact {n : Nat} {lines : List Text} {bs : List Block} (h : Scanned n lines bs) :
    Exact n lines bs := by
  induction h with
  | done => exact exact_nil _
  | prose hopening _ ih => exact ih.prose hopening
  | @closed n first last mid lines o bs hopening hmid hlast hrest ih =>
    refine Exact.cons ?_ rfl rfl (fun _ => rfl) ih
    have hlines : first :: (mid ++ [last]) ++ lines = [] ++ first :: (mid ++ last :: lines) := by
      simp
    simpa using IsFenced.closed (n := n) hlines hopening hmid hlast
  | @unclosed n first mid o hopening hmid =>
    have hlines : first :: mid = [] ++ first :: mid := rfl
    have hfenced := IsFenced.unclosed (n := n) hlines hopening hmid
    have hexact : Exact n (first :: mid ++ []) [_] :=
      Exact.cons (by simpa only [List.append_nil, List.nil_append] using hfenced) rfl rfl (by simp)
        (exact_nil _)
    simpa using hexact

/-! ## What is exact is read -/

/-- What a block is that starts with the first line. -/
theorem IsFenced.of_start {n : Nat} {first : Text} {lines : List Text} {b : Block} {o : Opening}
    (h : IsFenced n (first :: lines) b) (hstart : b.start = n)
    (hopening : openingOf? first = some o) :
    (∃ mid last after, lines = mid ++ last :: after ∧ (∀ l ∈ mid, ¬ o.EndsAt l) ∧ o.EndsAt last ∧
      b = ⟨⟨n, n + Text.utf8Size (first :: (mid ++ [last])).flatten,
        (first :: (mid ++ [last])).flatten⟩, true⟩) ∨
    ((∀ l ∈ lines, ¬ o.EndsAt l) ∧
      b = ⟨⟨n, n + Text.utf8Size (first :: lines).flatten, (first :: lines).flatten⟩, false⟩) := by
  have hfirst := utf8Size_pos (ne_nil_of_opening hopening)
  cases h with
  | @closed before mid after first' last o' hlines hopening' hmid hlast =>
    cases before with
    | nil =>
      obtain ⟨rfl, rfl⟩ := List.cons_eq_cons.1 hlines
      obtain rfl : o = o' := Option.some.inj (hopening.symm.trans hopening')
      exact .inl ⟨mid, last, after, rfl, hmid, hlast, by simp⟩
    | cons l before =>
      obtain ⟨rfl, -⟩ := List.cons_eq_cons.1 hlines
      simp at hstart
      omega
  | @unclosed before mid first' o' hlines hopening' hmid =>
    cases before with
    | nil =>
      obtain ⟨rfl, rfl⟩ := List.cons_eq_cons.1 hlines
      obtain rfl : o = o' := Option.some.inj (hopening.symm.trans hopening')
      exact .inr ⟨hmid, by simp⟩
    | cons l before =>
      obtain ⟨rfl, -⟩ := List.cons_eq_cons.1 hlines
      simp at hstart
      omega

/-- Two blocks that start with the first line are one. -/
theorem IsFenced.eq_of_start {n : Nat} {first : Text} {lines : List Text} {b c : Block}
    {o : Opening} (hb : IsFenced n (first :: lines) b) (hc : IsFenced n (first :: lines) c)
    (hstartb : b.start = n) (hstartc : c.start = n) (hopening : openingOf? first = some o) :
    b = c := by
  obtain ⟨mid, last, after, hlines, hmid, hlast, rfl⟩ | ⟨hmid, rfl⟩ :=
    hb.of_start hstartb hopening <;>
  obtain ⟨mid', last', after', hlines', hmid', hlast', rfl⟩ | ⟨hmid', rfl⟩ :=
    hc.of_start hstartc hopening
  · obtain ⟨ls, rfl, h⟩ | ⟨ls, rfl, h⟩ := List.append_eq_append_iff.1 (hlines.symm.trans hlines')
    · cases ls with
      | nil => cases h; simp
      | cons l ls =>
        obtain ⟨rfl, -⟩ := List.cons_eq_cons.1 h
        exact absurd hlast (hmid' _ (by simp))
    · cases ls with
      | nil => cases h; simp
      | cons l ls =>
        obtain ⟨rfl, -⟩ := List.cons_eq_cons.1 h
        exact absurd hlast' (hmid _ (by simp))
  · exact absurd hlast (hmid' _ (by simp [hlines]))
  · exact absurd hlast' (hmid _ (by simp [hlines']))
  · rfl

/-- A block that starts after some lines is fenced among the rest. -/
theorem IsFenced.of_append {n : Nat} {taken lines : List Text} {b : Block}
    (h : IsFenced n (taken ++ lines) b) (hstart : n + Text.utf8Size taken.flatten ≤ b.start) :
    IsFenced (n + Text.utf8Size taken.flatten) lines b := by
  -- the lines before the block are as large as the lines taken, so they go on after these
  have past {before rest : List Text} {first : Text} {o : Opening}
      (hlines : taken ++ lines = before ++ first :: rest) (hopening : openingOf? first = some o)
      (hsize : Text.utf8Size taken.flatten ≤ Text.utf8Size before.flatten) :
      ∃ ls, before = taken ++ ls ∧ lines = ls ++ first :: rest := by
    obtain ⟨ls, rfl, hrest⟩ | ⟨ls, rfl, hrest⟩ := List.append_eq_append_iff.1 hlines
    · exact ⟨ls, rfl, hrest⟩
    · cases ls with
      | nil => exact ⟨[], by simp, hrest.symm⟩
      | cons l ls =>
        obtain ⟨rfl, -⟩ := List.cons_eq_cons.1 hrest
        have := utf8Size_pos (ne_nil_of_opening hopening)
        simp at hsize
        omega
  cases h with
  | @closed before mid after first last o hlines hopening hmid hlast =>
    obtain ⟨ls, rfl, hlines'⟩ := past hlines hopening (by simpa using hstart)
    simpa [Nat.add_assoc] using
      IsFenced.closed (n := n + Text.utf8Size taken.flatten) hlines' hopening hmid hlast
  | @unclosed before mid first o hlines hopening hmid =>
    obtain ⟨ls, rfl, hlines'⟩ := past hlines hopening (by simpa using hstart)
    simpa [Nat.add_assoc] using
      IsFenced.unclosed (n := n + Text.utf8Size taken.flatten) hlines' hopening hmid

/-- Exact blocks that all start after some lines are exact for the rest. -/
theorem Exact.of_append {n : Nat} {taken lines : List Text} {bs cs : List Block}
    (h : Exact n (taken ++ lines) (bs ++ cs))
    (hbs : ∀ b ∈ bs, b.stop ≤ n + Text.utf8Size taken.flatten)
    (hcs : ∀ c ∈ cs, n + Text.utf8Size taken.flatten ≤ c.start) :
    Exact (n + Text.utf8Size taken.flatten) lines cs where
  fenced c hc := (h.fenced c (List.mem_append_right bs hc)).of_append (hcs c hc)
  nonempty c hc := h.nonempty c (List.mem_append_right bs hc)
  inside c hc := by
    have := (h.inside c (List.mem_append_right bs hc)).2
    exact ⟨hcs c hc, by simpa [Nat.add_assoc] using this⟩
  inOrder := (List.pairwise_append.1 h.inOrder).2.1
  closed c hc := by
    have hne : cs ≠ [] := by rintro rfl; simp at hc
    exact h.closed c (by rw [List.dropLast_append_of_ne_nil hne]; exact List.mem_append_right bs hc)
  complete before line after hlines hout := by
    refine h.complete (taken ++ before) line after (by rw [hlines, List.append_assoc]) ?_
    intro b hb
    obtain hb | hb := List.mem_append.1 hb
    · have := hbs b hb
      simp
      omega
    · simpa [Nat.add_assoc] using hout b hb

theorem Exact.of_prose {n : Nat} {line : Text} {lines : List Text} {bs : List Block}
    (hopening : openingOf? line = none) (h : Exact n (line :: lines) bs) :
    Exact (n + Text.utf8Size line) lines bs := by
  have past {before rest : List Text} {first : Text} {o : Opening}
      (hlines : line :: lines = before ++ first :: rest) (hfirst : openingOf? first = some o) :
      Text.utf8Size line ≤ Text.utf8Size before.flatten := by
    cases before with
    | nil =>
      obtain ⟨rfl, -⟩ := List.cons_eq_cons.1 hlines
      rw [hopening] at hfirst
      cases hfirst
    | cons l before =>
      obtain ⟨rfl, -⟩ := List.cons_eq_cons.1 hlines
      simp
  have hstart : ∀ b ∈ bs, n + Text.utf8Size line ≤ b.start := by
    intro b hb
    cases h.fenced b hb with
    | closed hlines hfirst => simpa using past hlines hfirst
    | unclosed hlines hfirst => simpa using past hlines hfirst
  have h' : Exact n ([line] ++ lines) ([] ++ bs) := h
  simpa using h'.of_append (by simp) (by simpa using hstart)

/-- The first of the exact blocks starts with the first line, if that opens a fence. -/
theorem Exact.exists_cons {n : Nat} {line : Text} {lines : List Text} {bs : List Block}
    {o : Opening} (hopening : openingOf? line = some o) (h : Exact n (line :: lines) bs) :
    ∃ b cs, bs = b :: cs ∧ b.start = n := by
  have hsome : openingOf? line ≠ none := by simp [hopening]
  cases bs with
  | nil => exact absurd (h.complete [] line lines rfl (by simp)) hsome
  | cons b cs =>
    refine ⟨b, cs, rfl, ?_⟩
    rcases Nat.eq_or_lt_of_le (h.inside b List.mem_cons_self).1 with hstart | hstart
    · exact hstart.symm
    · -- all blocks start after the line
      refine absurd (h.complete [] line lines rfl ?_) hsome
      refine List.forall_mem_cons.2 ⟨.inl (by simpa using hstart), fun c hc => .inl ?_⟩
      have := (List.pairwise_cons.1 h.inOrder).1 c hc
      have := h.nonempty b List.mem_cons_self
      simp
      omega

/-- Exact blocks are those that are found when the lines are read one by one. -/
theorem Exact.eq_of_scanned {n : Nat} {lines : List Text} {bs cs : List Block}
    (hscanned : Scanned n lines cs) (h : Exact n lines bs) : bs = cs := by
  have hcs := hscanned.exact
  induction hscanned generalizing bs with
  | done =>
    refine List.eq_nil_iff_forall_not_mem.2 fun b hb => ?_
    have := h.inside b hb
    have := h.nonempty b hb
    simp at *
    omega
  | prose hopening hrest ih => exact ih (h.of_prose hopening) hrest.exact
  | @closed n first last mid lines o cs hopening hmid hlast hrest ih =>
    obtain ⟨b, bs, rfl, hstart⟩ := h.exists_cons hopening
    obtain rfl := IsFenced.eq_of_start (h.fenced b (by simp)) (hcs.fenced _ List.mem_cons_self)
      hstart rfl hopening
    refine congrArg _ (ih ?_ hrest.exact)
    have h' : Exact n (first :: (mid ++ [last]) ++ lines) ([_] ++ bs) := h
    exact h'.of_append (by simp) (List.pairwise_cons.1 h.inOrder).1
  | @unclosed n first mid o hopening hmid =>
    obtain ⟨b, bs, rfl, hstart⟩ := h.exists_cons hopening
    obtain rfl := IsFenced.eq_of_start (h.fenced b (by simp)) (hcs.fenced _ List.mem_cons_self)
      hstart rfl hopening
    refine congrArg _ (List.eq_nil_iff_forall_not_mem.2 fun c hc => ?_)
    have := h.inside c (List.mem_cons_of_mem _ hc)
    have := h.nonempty c (List.mem_cons_of_mem _ hc)
    have := (List.pairwise_cons.1 h.inOrder).1 c hc
    dsimp only at this
    omega

/-- Blocks are exact for the lines of a text if and only if they are the blocks of the text. -/
theorem exact_iff (s : Text) (bs : List Block) :
    Exact 0 (Text.fullLines s) bs ↔ bs = blocks s := by
  have hscanned := scanned_segmentsFrom 0 (Text.fullLines s)
  constructor
  · exact fun h => h.eq_of_scanned hscanned
  · rintro rfl
    exact hscanned.exact

end MarkdownPrep.Fence
