import MarkdownPrep.Offsets.Extent
import MarkdownPrep.Proofs.Offsets.Bytes
import MarkdownPrep.Proofs.Dollar.Reading

/-!
# Rewriting by offset

A pass over the offsets of the stretches that were found in a text (`Offsets.rewriteFrom?`) does
what a pass over the pieces of the text does (`Piece.rewrite`), if the two do the same to each
stretch: `Offsets.rewriteFrom?_eq`.
-/

namespace MarkdownPrep

/-- The text of some pieces with the found stretches replaced from left to right. Of a stretch `f`
tells, given the state so far, what it becomes and the state after it, or that it is left alone. -/
def Piece.rewrite {σ : Type} (f : Text → σ → Option (Text × σ)) : List Piece → σ → Text × σ
  | [], st => ([], st)
  | .kept c :: ps, st => (c :: (rewrite f ps st).1, (rewrite f ps st).2)
  | .found t :: ps, st =>
    match f t st with
    | none => (t ++ (rewrite f ps st).1, (rewrite f ps st).2)
    | some (new, st) => (new ++ (rewrite f ps st).1, (rewrite f ps st).2)

namespace Piece

/-- A found stretch stands at its place. -/
theorem exists_of_mem_spansFrom {u : Text} {ps : List Piece} {span : Span}
    (h : span ∈ spansFrom (Text.utf8Size u) ps) : span.text ∈ founds ps ∧
      ∃ x y, u ++ sources ps = x ++ (span.text ++ y) ∧ span.start = Text.utf8Size x ∧
        span.stop = Text.utf8Size (x ++ span.text) := by
  induction ps generalizing u with
  | nil => cases h
  | cons p ps ih =>
    cases p with
    | kept c =>
      rw [spansFrom, ← Text.utf8Size_concat] at h
      obtain ⟨hmem, x, y, hsplit, hplace⟩ := ih h
      exact ⟨hmem, x, y, by simpa [source] using hsplit, hplace⟩
    | found t =>
      rw [spansFrom, ← Text.utf8Size_append] at h
      obtain rfl | h := List.mem_cons.1 h
      · exact ⟨List.mem_cons_self, u, sources ps, rfl, rfl, rfl⟩
      · obtain ⟨hmem, x, y, hsplit, hplace⟩ := ih h
        exact ⟨List.mem_cons_of_mem _ hmem, x, y, by simpa [source] using hsplit, hplace⟩

/-- Stretches are found one after another. -/
theorem pairwise_spansFrom (start : Nat) (ps : List Piece) :
    (spansFrom start ps).Pairwise fun a b => a.stop ≤ b.start := by
  have hstart : ∀ (ps : List Piece) (start : Nat), ∀ span ∈ spansFrom start ps,
      start ≤ span.start := by
    intro ps
    induction ps with
    | nil => exact fun _ _ h => nomatch h
    | cons p ps ih =>
      intro start span h
      cases p with
      | kept c => exact Nat.le_of_add_right_le (ih _ span h)
      | found t =>
        obtain rfl | h := List.mem_cons.1 h
        · exact Nat.le_refl _
        · exact Nat.le_of_add_right_le (ih _ span h)
  induction ps generalizing start with
  | nil => exact .nil
  | cons p ps ih =>
    cases p with
    | kept c => exact ih _
    | found t => exact List.pairwise_cons.2 ⟨hstart ps _, ih _⟩

theorem map_text_spansFrom (start : Nat) (ps : List Piece) :
    (spansFrom start ps).map Span.text = founds ps := by
  induction ps generalizing start with
  | nil => rfl
  | cons p ps ih =>
    cases p with
    | kept c => exact ih _
    | found t => exact congrArg (t :: ·) (ih _)

theorem spansFrom_keep_append (start : Nat) (s : Text) (ps : List Piece) :
    spansFrom start (keep s ++ ps) = spansFrom (start + Text.utf8Size s) ps := by
  induction s generalizing start with
  | nil => rfl
  | cons c s ih =>
    rw [Text.utf8Size_cons, ← Nat.add_assoc]
    exact ih (start + c.utf8Size)

/-- The places of the stretches that are still found. -/
theorem spansFrom_retain (p : Text → Bool) (start : Nat) (ps : List Piece) :
    spansFrom start (retain p ps) = (spansFrom start ps).filter (p ·.text) := by
  induction ps generalizing start with
  | nil => rfl
  | cons q ps ih =>
    cases q with
    | kept c => exact ih _
    | found t =>
      by_cases ht : p t
      · simp [retain_found_cons, spansFrom, ih, ht]
      · simp [retain_found_cons_of_not, spansFrom_keep_append, spansFrom, ih, ht]

end Piece

namespace Offsets

open Text

/-- What is collected from the images of some members, each giving images itself. -/
theorem collect?_map {α β γ δ : Type} {f : γ → Option (List δ)} {g : α → γ} {h : α → List β}
    {k : β → δ} {as : List α} (hf : ∀ a ∈ as, f (g a) = some ((h a).map k)) :
    collect? f (as.map g) = some ((as.flatMap h).map k) := by
  induction as with
  | nil => rfl
  | cons a as ih =>
    rw [List.forall_mem_cons] at hf
    rw [List.map_cons, collect?, hf.1, ih hf.2]
    simp

/-- The offsets of a stretch. -/
def Extent.ofSpan (span : Span) : Extent := ⟨span.start, span.stop⟩

variable {σ : Type} {act : Nat → Extent → σ → Option (Option (Nat × Text × σ))}

/-- Where there is nothing to rewrite, the text stays as it is. -/
theorem rewriteFrom?_isEmpty (s : Text) (st : σ) (es : List Extent) :
    (if es.isEmpty then some (s, st) else rewriteFrom? act s 0 [] st es) =
      rewriteFrom? act s 0 [] st es := by
  cases es with
  | nil => simp [rewriteFrom?, (At.start s).from?]
  | cons e es => rfl

theorem rewriteFrom?_cons {s : Text} {cursor start : Nat} {k new out : Text} {st st' : σ}
    {e : Extent} (h : act cursor e st = some (some (start, new, st')))
    (hk : slice? cursor start s = some k) (es : List Extent) :
    rewriteFrom? act s cursor out st (e :: es) =
      rewriteFrom? act s e.stop (out ++ k ++ new) st' es := by
  simp [rewriteFrom?, h, hk]

/-- **Rewriting by offset** the stretches found in the pieces of a text. The pieces stand after
`u ++ k`, of which `u` is done with. -/
theorem rewriteFrom?_eq {s : Text} (act : Nat → Extent → σ → Option (Option (Nat × Text × σ)))
    (f : Text → σ → Option (Text × σ)) (u k : Text) (ps : List Piece) (out : Text) (st : σ)
    (hs : s = u ++ k ++ Piece.sources ps)
    (hact : ∀ t ∈ Piece.founds ps, ∀ x y cursor st, s = x ++ (t ++ y) →
      act cursor ⟨utf8Size x, utf8Size (x ++ t)⟩ st =
        some ((f t st).map fun (new, st) => (utf8Size x, new, st))) :
    rewriteFrom? act s (utf8Size u) out st
        ((Piece.spansFrom (utf8Size (u ++ k)) ps).map Extent.ofSpan) =
      some (out ++ k ++ (Piece.rewrite f ps st).1, (Piece.rewrite f ps st).2) := by
  induction ps generalizing u k out st with
  | nil =>
    have hat : At s (utf8Size u) k := ⟨u, by simpa using hs, rfl⟩
    simp [Piece.spansFrom, rewriteFrom?, hat.from?, Piece.rewrite]
  | cons p ps ih =>
    cases p with
    | kept c =>
      have hsize : utf8Size (u ++ (k ++ [c])) = utf8Size (u ++ k) + c.utf8Size := by
        rw [← List.append_assoc]
        exact utf8Size_concat (u ++ k) c
      have hrest := ih u (k ++ [c]) out st (by simpa [Piece.source] using hs) hact
      rw [hsize] at hrest
      simpa [Piece.spansFrom, Piece.rewrite] using hrest
    | found t =>
      have hs' : s = u ++ k ++ (t ++ Piece.sources ps) := hs
      have hstep := hact t List.mem_cons_self (u ++ k) _ (utf8Size u) st hs'
      have hact' := fun t ht => hact t (List.mem_cons_of_mem _ ht)
      rw [Piece.spansFrom, List.map_cons, Extent.ofSpan, ← utf8Size_append, Piece.rewrite]
      cases hf : f t st with
      | none =>
        have hrest := ih u (k ++ t) out st (by simpa using hs') hact'
        rw [hf] at hstep
        simp only [rewriteFrom?, hstep, Option.map_none, Option.bind_eq_bind, Option.bind_some]
        simpa using hrest
      | some r =>
        obtain ⟨new, st'⟩ := r
        have hbefore : slice? (utf8Size u) (utf8Size (u ++ k)) s = some k := by
          rw [hs', List.append_assoc, slice?_append]
        have hrest := ih (u ++ k ++ t) [] (out ++ k ++ new) st' (by simpa using hs') hact'
        rw [hf] at hstep
        rw [rewriteFrom?_cons hstep hbefore]
        simpa using hrest

end Offsets

end MarkdownPrep
