import MarkdownPrep.Offsets.Dollar
import MarkdownPrep.Proofs.Dollar.Literal
import MarkdownPrep.Proofs.Offsets.Extent
import MarkdownPrep.Proofs.Stash.Cells

/-!
# Dollar spans by offset

The scanners that go by bytes stop at dollars and newlines only, which are ASCII characters, so they
pass over other characters whole (`closer?_skip`, `spansFrom?_skip`).
-/

namespace MarkdownPrep

namespace Offsets

open Text

/-! ## The end of a span -/

section
variable {u t : Text} {fuel : Nat}

/-- At a dollar that follows the character `b`. -/
theorem closer?_dollar {b : Char} (hu : u.getLast? = some b) :
    closer? (u ++ '$' :: t) (fuel + 1) (utf8Size u) =
      if b = '\\' then closer? (u ++ '$' :: t) fuel (utf8Size u + 1)
      else some (if t.head? = some '$' then none else some (utf8Size u)) := by
  have hat : At (u ++ '$' :: t) (utf8Size u) ('$' :: t) := ⟨u, rfl, rfl⟩
  have hne : u ≠ [] := by
    rintro rfl
    cases hu
  obtain ⟨b', hb', hlast⟩ := exists_byteBefore? hne ('$' :: t)
  have hescape : b' = '\\'.toUInt8 ↔ b = '\\' := by
    rw [hlast '\\' (by decide), hu, Option.some.injEq]
  have hdouble : isAt '$' (utf8Size u + 1) (u ++ '$' :: t) = decide (t.head? = some '$') :=
    (hat.cons_of_lt (by decide)).isAt (by decide)
  simp only [closer?, if_neg hat.not_length_le, hat.isAt (by decide : ('\n' : Char).toNat < 128),
    hat.isAt (by decide : ('$' : Char).toNat < 128), hb', hdouble, Option.bind_eq_bind,
    Option.bind_some, hescape, List.head?_cons, decide_eq_true_eq]
  rfl

/-- The dollar that closes a span stands after the interior of the span. -/
theorem closer?_eq {b : Char} (hu : u.getLast? = some b) (hfuel : utf8Size t < fuel) :
    closer? (u ++ t) fuel (utf8Size u) =
      some ((Dollar.interior? b t).map fun body => utf8Size (u ++ body)) := by
  induction t generalizing u b fuel with
  | nil =>
    obtain ⟨fuel, rfl⟩ := Nat.exists_eq_add_one_of_ne_zero (Nat.ne_zero_of_lt hfuel)
    rw [List.append_nil, closer?, if_pos (Nat.le_of_eq (length_bytes u))]
    rfl
  | cons c t ih =>
    have hat : At (u ++ c :: t) (utf8Size u) (c :: t) := ⟨u, rfl, rfl⟩
    rw [utf8Size_cons] at hfuel
    obtain ⟨fuel, rfl⟩ := Nat.exists_eq_add_of_le' (show c.utf8Size ≤ fuel by omega)
    have hrest : closer? (u ++ [c] ++ t) fuel (utf8Size (u ++ [c])) = _ :=
      ih List.getLast?_concat (by omega)
    have hbody : ((Dollar.interior? c t).map fun body => utf8Size (u ++ [c] ++ body)) =
        ((Dollar.interior? c t).map (c :: ·)).map fun body => utf8Size (u ++ body) := by
      simp [Function.comp_def]
    rw [List.append_assoc, List.singleton_append, utf8Size_concat, hbody] at hrest
    rw [Dollar.interior?]
    by_cases hline : c = '\n'
    · subst hline
      have hone : ('\n' : Char).utf8Size = 1 := rfl
      rw [hone, closer?, if_neg hat.not_length_le, hat.isAt (by decide)]
      rfl
    rw [if_neg hline]
    by_cases hdollar : c = '$'
    · subst hdollar
      have hone : ('$' : Char).utf8Size = 1 := rfl
      rw [hone] at hrest ⊢
      rw [closer?_dollar hu]
      by_cases hb : b = '\\'
      · rw [if_pos hb, hrest, if_neg (by simp [hb])]
      · have hcloses : (decide ('$' = '$') && decide (b ≠ '\\')) = true := by simp [hb]
        rw [if_neg hb, if_pos hcloses]
        by_cases hdouble : t.head? = some '$' <;> simp [hdouble]
    · rw [hat.skip (f := closer? _), hrest, if_neg (by simp [hdollar])]
      intro fuel j hlt hother
      rw [closer?, if_neg (Nat.not_le.2 hlt), hother '\n' (by decide) hline,
        hother '$' (by decide) hdollar]
      rfl

/-! ## Spans -/

/-- A dollar that stands after `u` opens a span unless it is escaped or doubled. -/
theorem opens?_eq (u t : Text) : opens? (utf8Size u) (u ++ '$' :: t) = some
    (!(u.getLast? = some '\\' || u.getLast? = some '$' || t.head? = some '$')) := by
  have hat : At (u ++ '$' :: t) (utf8Size u + 1) t := At.cons_of_lt ⟨u, rfl, rfl⟩ (by decide)
  rw [opens?, hat.isAt (by decide)]
  by_cases hu : u = []
  · simp [hu]
  · obtain ⟨b, hb, hlast⟩ := exists_byteBefore? hu ('$' :: t)
    rw [if_neg (mt utf8Size_eq_zero_iff.1 hu), hb]
    simp [hlast '\\' (by decide), hlast '$' (by decide)]

/-- At a dollar, a span is found or the dollar is gone over. -/
theorem spansFrom?_dollar (u t : Text) (fuel : Nat) :
    spansFrom? (u ++ '$' :: t) (fuel + 1) (utf8Size u) =
      match Dollar.recogniser u.getLast? ('$' :: t) with
      | none => spansFrom? (u ++ '$' :: t) fuel (utf8Size u + 1)
      | some ps => (spansFrom? (u ++ '$' :: t) fuel (utf8Size (u ++ Piece.sources ps))).map
          (⟨utf8Size u, utf8Size (u ++ Piece.sources ps)⟩ :: ·) := by
  have hat : At (u ++ '$' :: t) (utf8Size u) ('$' :: t) := ⟨u, rfl, rfl⟩
  have hfuel : utf8Size t < (u ++ '$' :: t).bytes.length + 1 := by
    rw [hat.length_bytes, utf8Size_cons]
    omega
  have hlast : (u ++ ['$']).getLast? = some '$' := List.getLast?_concat
  have hclose := closer?_eq hlast hfuel
  have hsize : utf8Size (u ++ ['$']) = utf8Size u + 1 := utf8Size_concat u '$'
  rw [List.append_assoc, List.singleton_append, hsize] at hclose
  rw [spansFrom?, if_neg hat.not_length_le, hat.isAt (by decide), opens?_eq, hclose,
    Dollar.recogniser]
  cases (u.getLast? = some '\\' || u.getLast? = some '$' || t.head? = some '$' : Bool) with
  | true => rfl
  | false =>
    cases Dollar.interior? '$' t with
    | none => rfl
    | some body =>
      have hend : utf8Size (u ++ ['$'] ++ body) + 1 =
          utf8Size (u ++ Piece.sources [.found ('$' :: body ++ ['$'])]) := by
        have hone : ('$' : Char).utf8Size = 1 := rfl
        simp [Piece.source, hone]
        omega
      simp only [Option.map_some, Bool.not_false, Option.bind_eq_bind, Option.bind_some, if_true,
        hend, List.head?_cons, decide_true, Bool.not_true, Bool.false_eq_true, if_false]
      cases spansFrom? _ fuel _ <;> rfl

/-- **The spans by offset** are the spans, from any place on. -/
theorem spansFrom?_eq (x t : Text) : ∀ fuel, utf8Size t < fuel →
    spansFrom? (x ++ t) fuel (utf8Size x) =
      some ((Piece.spansFrom (utf8Size x) (cutAfter Dollar.recogniser x t)).map Extent.ofSpan) := by
  refine cut_induction Dollar.honest_recogniser (motive := fun x t ps => ∀ fuel, utf8Size t < fuel →
    spansFrom? (x ++ t) fuel (utf8Size x) =
      some ((Piece.spansFrom (utf8Size x) ps).map Extent.ofSpan)) ?_ ?_ ?_ x t
  · intro x fuel hfuel
    obtain ⟨fuel, rfl⟩ := Nat.exists_eq_add_one_of_ne_zero (Nat.ne_zero_of_lt hfuel)
    rw [List.append_nil, spansFrom?, if_pos (Nat.le_of_eq (length_bytes x))]
    rfl
  · intro x c t hnone ih fuel hfuel
    have hat : At (x ++ c :: t) (utf8Size x) (c :: t) := ⟨x, rfl, rfl⟩
    rw [utf8Size_cons] at hfuel
    obtain ⟨fuel, rfl⟩ := Nat.exists_eq_add_of_le' (show c.utf8Size ≤ fuel by omega)
    have hrest := ih fuel (by omega)
    rw [List.append_assoc, List.singleton_append, utf8Size_concat] at hrest
    rw [Piece.spansFrom, ← hrest]
    by_cases hdollar : c = '$'
    · subst hdollar
      have hone : ('$' : Char).utf8Size = 1 := rfl
      rw [hone, spansFrom?_dollar, hnone]
    · refine hat.skip (f := spansFrom? _) (fun fuel j hlt hother => ?_) fuel
      rw [spansFrom?, if_neg (Nat.not_le.2 hlt), hother '$' (by decide) hdollar]
      rfl
  · rintro x u v ps hps rfl ih fuel hfuel
    obtain ⟨fuel, rfl⟩ := Nat.exists_eq_add_one_of_ne_zero (Nat.ne_zero_of_lt hfuel)
    obtain ⟨body, y, hspan, -, rfl⟩ := Dollar.recogniser_eq_some_iff.1 hps
    have hsplit : Piece.sources [.found (Dollar.span body)] ++ v = '$' :: (body ++ ['$'] ++ y) :=
      hspan
    have hpos := length_le_utf8Size (Piece.sources [.found (Dollar.span body)])
    have hrest := ih fuel (by
      rw [utf8Size_append] at hfuel
      simp [Piece.source, Dollar.span] at hpos hfuel ⊢
      omega)
    rw [List.append_assoc] at hrest
    rw [hsplit] at hps hrest ⊢
    rw [spansFrom?_dollar, hps]
    dsimp only
    rw [hrest, List.singleton_append, Piece.spansFrom]
    simp [Extent.ofSpan, Piece.source]

/-- **The dollar spans of a text by offset** are its dollar spans. -/
theorem spans?_eq (s : Text) :
    spans? s = some ((Piece.spans (Dollar.spans s)).map Extent.ofSpan) :=
  spansFrom?_eq [] s _ (by rw [length_bytes]; exact Nat.lt_succ_self _)

end

/-! ## The passes -/

section
variable (x body y : Text)

theorem inner?_eq :
    Extent.inner? ⟨utf8Size x, utf8Size (x ++ Dollar.span body)⟩ (x ++ (Dollar.span body ++ y)) =
      some body := by
  have hstart : utf8Size x + 1 = utf8Size (x ++ ['$']) := (utf8Size_concat x '$').symm
  have hstop : utf8Size (x ++ Dollar.span body) = utf8Size (x ++ ['$'] ++ body) + 1 := by
    have hspan : x ++ Dollar.span body = x ++ ['$'] ++ body ++ ['$'] := by simp [Dollar.span]
    rw [hspan]
    exact utf8Size_concat (x ++ ['$'] ++ body) '$'
  have hsplit : x ++ (Dollar.span body ++ y) = x ++ ['$'] ++ (body ++ '$' :: y) := by
    simp [Dollar.span]
  rw [Extent.inner?, hstart, hstop, Nat.add_sub_cancel, hsplit, slice?_append]

theorem text?_eq :
    Extent.text? ⟨utf8Size x, utf8Size (x ++ body)⟩ (x ++ (body ++ y)) = some body :=
  slice?_append x body y

theorem hideSpan?_eq (cursor : Nat) (st : Stash) :
    hideSpan? (x ++ (Dollar.span body ++ y)) cursor
        ⟨utf8Size x, utf8Size (x ++ Dollar.span body)⟩ st =
      some (if Amount.isBare (trim body) then none else
        some (utf8Size x, st.put .inlineMath (Dollar.span body))) := by
  rw [hideSpan?, inner?_eq, text?_eq]
  split <;> simp_all

theorem escapeSpan?_eq (cursor : Nat) : escapeSpan? (x ++ (Dollar.span body ++ y)) cursor
      ⟨utf8Size x, utf8Size (x ++ Dollar.span body)⟩ () =
    some (some (utf8Size x, "\\$".toList ++ body ++ "\\$".toList, ())) := by
  rw [escapeSpan?, inner?_eq]
  rfl

theorem classify?_eq (sentinel : Char) : classify? sentinel (x ++ (Dollar.span body ++ y))
      ⟨utf8Size x, utf8Size (x ++ Dollar.span body)⟩ =
    some (if (Dollar.span body).contains sentinel then [] else
      [(⟨utf8Size x, utf8Size (x ++ Dollar.span body)⟩, Dollar.readsAsMath body)]) := by
  rw [classify?, inner?_eq, text?_eq]
  split <;> simp_all

end

/-- To put some of the found stretches aside is a rewriting of them. -/
theorem rewrite_put (kind : Stash.Kind) (p : Text → Bool) (ps : List Piece) (st : Stash) :
    Piece.rewrite (fun t st => if p t then some (st.put kind t) else none) ps st =
      st.hide kind (Piece.retain p ps) := by
  induction ps generalizing st with
  | nil => rfl
  | cons q ps ih =>
    cases q with
    | kept c => simp [Piece.rewrite, Piece.retain, Stash.hide, ih] at ih ⊢
    | found t =>
      by_cases ht : p t
      · simp [Piece.rewrite, Piece.retain_found_cons, Stash.hide, ih, ht]
      · simp [Piece.rewrite, Piece.retain_found_cons_of_not, Stash.hide_keep_append, ih, ht]

/-- **Putting inline math aside by offset** puts aside the inline math of the text. -/
theorem hideInlineMath?_eq (s : Text) (st : Stash) :
    hideInlineMath? s st = some (hideInlineMath s st) := by
  have h := rewriteFrom?_eq (hideSpan? s)
    (fun t st => if !Amount.isBare (trim (Dollar.interior t)) then some (st.put .inlineMath t)
      else none) [] [] (Dollar.spans s) [] st (Dollar.sources_spans s).symm (by
    rintro t ht x y cursor st rfl
    obtain ⟨body, rfl⟩ := Dollar.exists_span_of_mem_founds ht
    rw [hideSpan?_eq, Dollar.interior_span]
    cases Amount.isBare (trim body) <;> rfl)
  rw [rewrite_put] at h
  rw [hideInlineMath?, spans?_eq, Option.bind_eq_bind, Option.bind_some, Option.pure_def,
    rewriteFrom?_isEmpty]
  exact h

/-- The spans that are classified as literal. -/
theorem collect?_classify (sentinel : Char) (s : Text) : ∃ classified : List (Extent × Bool),
    collect? (classify? sentinel s) ((Piece.spans (Dollar.spans s)).map Extent.ofSpan) =
      some classified ∧
    (classified.filter (!·.2)).map (·.1) =
      (Piece.spans (Piece.retain (Dollar.isLiteral sentinel) (Dollar.spans s))).map Extent.ofSpan := by
  have hclassify : ∀ span ∈ Piece.spans (Dollar.spans s),
      classify? sentinel s (Extent.ofSpan span) = some
        ((if span.text.contains sentinel then []
          else [(Extent.ofSpan span, Dollar.readsAsMath (Dollar.interior span.text))]).map id) := by
    intro span hspan
    obtain ⟨hmem, x, y, hsplit, hstart, hstop⟩ := Piece.exists_of_mem_spansFrom (u := []) hspan
    obtain ⟨body, hbody⟩ := Dollar.exists_span_of_mem_founds hmem
    rw [Dollar.sources_spans, List.nil_append, hbody] at hsplit
    rw [Extent.ofSpan, hstart, hstop, hbody, Dollar.interior_span, hsplit, classify?_eq,
      List.map_id]
  refine ⟨_, collect?_map hclassify, ?_⟩
  rw [List.map_id, Piece.spans, Piece.spans, Piece.spansFrom_retain]
  generalize Piece.spansFrom 0 (Dollar.spans s) = spans
  induction spans with
  | nil => rfl
  | cons span spans ih =>
    rw [List.flatMap_cons, List.filter_append, List.map_append, ih, List.filter_cons]
    by_cases hsentinel : sentinel ∈ span.text <;>
      cases hmath : Dollar.readsAsMath (Dollar.interior span.text) <;>
      simp [Dollar.isLiteral, hsentinel, hmath]

/-- To escape the literal spans is to settle those that hold no sentinel. -/
theorem rewrite_escaped (p : Text → Bool) (ps : List Piece) :
    (Piece.rewrite (fun t st => some (Dollar.escaped t, st)) (Piece.retain p ps) ()).1 =
      Piece.mapFound (Dollar.escapeIf p) ps := by
  have hmap : ∀ ps : List Piece,
      (Piece.rewrite (fun t st => some (Dollar.escaped t, st)) ps ()).1 =
        Piece.mapFound Dollar.escaped ps := by
    intro ps
    induction ps with
    | nil => rfl
    | cons q ps ih => cases q <;> simp [Piece.rewrite, ih]
  rw [hmap, Piece.mapFound_retain]
  rfl

/-- **Escaping literal dollars by offset** escapes the literal dollars of the text. -/
theorem escapeLiteral?_eq (sentinel : Char) (s : Text) :
    escapeLiteral? sentinel s = some (Dollar.escapeLiteral sentinel s) := by
  obtain ⟨classified, hcollect, hliteral⟩ := collect?_classify sentinel s
  have h := rewriteFrom?_eq (s := s) (escapeSpan? s) (fun t st => some (Dollar.escaped t, st))
    [] [] (Piece.retain (Dollar.isLiteral sentinel) (Dollar.spans s)) [] ()
    (by rw [Piece.sources_retain, Dollar.sources_spans]; rfl) (by
    rintro t ht x y cursor st rfl
    rw [Piece.founds_retain] at ht
    obtain ⟨body, rfl⟩ := Dollar.exists_span_of_mem_founds (List.mem_of_mem_filter ht)
    rw [escapeSpan?_eq, Dollar.escaped, Dollar.interior_span]
    rfl)
  rw [rewrite_escaped, ← Dollar.escapeLiteral_eq] at h
  rw [escapeLiteral?, spans?_eq, Option.bind_eq_bind, Option.bind_some, hcollect,
    Option.bind_eq_bind, Option.bind_some, hliteral]
  exact congrArg (Option.bind · fun r => some r.1) h

end Offsets

end MarkdownPrep
