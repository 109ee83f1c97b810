import MarkdownPrep.Proofs.Prepare.Layering
import MarkdownPrep.Proofs.Stash.Parts

/-!
# A place in the layers

Math that is put aside between two parts of the layer `Layering.dollars` is given back between the
same two parts, and these are retouched each for itself: `exists_mathBack_of_block` for a dollar
block, whether or not its token is put aside with a dollar span, and `exists_mathBack_of_span` for
a dollar span.
-/

namespace MarkdownPrep

open Stash

/-- Where no token of these kinds stands, nothing is given back. -/
theorem Stash.giveBackIn_of_forall_token {p : Kind → Bool} {as : Layer}
    (h : ∀ kind i, .token kind i ∈ as → p kind = false) (es : Store) : giveBackIn p es as = as := by
  induction es with
  | nil => rfl
  | cons e es ih =>
    obtain ⟨kind, new⟩ := e
    rw [giveBackIn]
    split
    · next hp =>
      rw [exchange_of_not_mem fun hm => by simp [h _ _ hm] at hp, ih]
    · exact ih

namespace Layering

variable {n : Text} (L : Layering n)

theorem not_mem_layer_spans (i : Nat) : .token .inlineMath i ∉ Cell.layer L.spans := by
  intro hi
  rw [L.layer_spans] at hi
  rcases Cell.token_mem_hidden hi with hk | hi
  · cases hk
  · exact L.not_mem_dollars_of_kind (by decide) (by decide) i hi

/-- A layer with its dollar blocks given back. -/
def blocksBack (as : Layer) : Layer :=
  giveBackIn (isOneOf mathKinds) (stored .mathBlock L.blocks L.verbatim) as

@[simp] theorem blocksBack_append (as bs : Layer) :
    L.blocksBack (as ++ bs) = L.blocksBack as ++ L.blocksBack bs := giveBackIn_append _ as bs

/-- Dollar blocks that were put aside in a part come back there. -/
theorem blocksBack_hidden (bs cs ds : List Cell) (h : L.blocks = bs ++ (cs ++ ds)) :
    L.blocksBack (Cell.hidden .mathBlock (L.verbatim.length + (Cell.founds bs).length) cs) =
      Cell.layer cs := by
  rw [blocksBack, h, giveBackIn_hidden_part _ _ (by decide), L.giveBackIn_verbatim_of_math]
  intro i hi
  refine absurd ?_ (L.not_mem_dollars_of_kind (by decide) (by decide) i :
    .token .mathBlock i ∉ L.dollars)
  rw [dollars, h]
  simp [hi]

/-- **A place in the layer without dollar spans.** A cell there that leaves a token comes back
between the parts before and after it. -/
theorem exists_mathBack {ds es : List Cell} {c : Cell} (h : L.spans = ds ++ c :: es)
    (hc : ∀ kind m, ∃ kind' j, Cell.hidden kind m [c] = [.token kind' j]) :
    ∃ x y, L.mathBack = x ++ (L.blocksBack (Cell.layer [c]) ++ y) ∧
      Retouched (L.blocksBack (Cell.layer ds)) x ∧ Retouched (L.blocksBack (Cell.layer es)) y := by
  have hpart : ∀ ds cs es : List Cell, L.spans = ds ++ (cs ++ es) →
      giveBackIn (isOneOf mathKinds) L.store (Cell.hidden .inlineMath
        ((stored .mathBlock L.blocks L.verbatim).length + (Cell.founds ds).length) cs) =
        L.blocksBack (Cell.layer cs) := by
    intro ds cs es hsplit
    rw [store, hsplit, giveBackIn_hidden_part _ _ (by decide)]
    · rfl
    · intro i hi
      refine absurd ?_ (L.not_mem_layer_spans i)
      simp [hsplit, hi]
  have hds := hpart [] ds (c :: es) h
  have hone := hpart ds [c] es h
  have hes := hpart (ds ++ [c]) es [] (by simp [h])
  obtain ⟨kind, j, htok⟩ := hc .inlineMath
    ((stored .mathBlock L.blocks L.verbatim).length + (Cell.founds ds).length)
  have hunspanned : L.unspanned = Cell.hidden .inlineMath
      (stored .mathBlock L.blocks L.verbatim).length ds ++ .token kind j :: Cell.hidden .inlineMath
      ((stored .mathBlock L.blocks L.verbatim).length + (Cell.founds (ds ++ [c])).length) es := by
    rw [unspanned, h, ← List.singleton_append, Cell.hidden_append, Cell.hidden_append, htok,
      Cell.founds_append, List.length_append, Nat.add_assoc]
    rfl
  have hsettled : Retouched L.unspanned L.settled := L.retouched_settled
  rw [hunspanned] at hsettled
  obtain ⟨x, y, hxy, hx, hy⟩ := hsettled.exists_split
  refine ⟨giveBackIn (isOneOf mathKinds) L.store x, giveBackIn (isOneOf mathKinds) L.store y, ?_,
    ?_, ?_⟩
  · rw [mathBack, hxy, ← List.singleton_append, giveBackIn_append, giveBackIn_append, ← htok, hone]
  · rw [← hds]
    exact hx.giveBackIn (.refl _)
  · rw [← hes]
    exact hy.giveBackIn (.refl _)

/-- **A dollar block comes back in its place.** -/
theorem exists_mathBack_of_block {bs cs : List Cell} {m : Layer}
    (h : L.blocks = bs ++ .found m :: cs) :
    ∃ x y, L.mathBack = x ++ (m ++ y) ∧ Retouched (Cell.layer bs) x ∧
      Retouched (Cell.layer cs) y := by
  have hbs := L.blocksBack_hidden [] bs _ h
  have hm := L.blocksBack_hidden bs [.found m] cs h
  have hcs := L.blocksBack_hidden (bs ++ [.found m]) cs [] (by simp [h])
  have hspans : Cell.layer L.spans =
      Cell.hidden .mathBlock (L.verbatim.length + (Cell.founds []).length) bs ++
        .token .mathBlock (L.verbatim.length + (Cell.founds bs).length) ::
        Cell.hidden .mathBlock
          (L.verbatim.length + (Cell.founds (bs ++ [.found m])).length) cs := by
    rw [L.layer_spans, h, Cell.hidden_append, Cell.founds_append, List.length_append]
    rfl
  -- the token is a cell, or stands in the cell of a dollar span
  obtain ⟨ds, c, es, u, v, hsplit, hu, hv, hlayer, hc⟩ := Cell.exists_cell_of_token hspans
  obtain ⟨x, y, hback, hx, hy⟩ := L.exists_mathBack hsplit hc
  refine ⟨x ++ L.blocksBack u, L.blocksBack v ++ y, ?_, ?_, ?_⟩
  · have hm : L.blocksBack [.token .mathBlock (L.verbatim.length + (Cell.founds bs).length)] = m :=
      hm.trans (by simp)
    rw [hback, hlayer, ← List.singleton_append, blocksBack_append, blocksBack_append, hm]
    simp
  · rw [← hbs, hu, blocksBack_append]
    exact hx.append (.refl _)
  · rw [← hcs, hv, blocksBack_append]
    exact (Retouched.refl _).append hy

/-- **A dollar span comes back in its place**, if no dollar block reaches over it. -/
theorem exists_mathBack_of_span {bs ks cs ds es : List Cell} (h : L.blocks = bs ++ (ks ++ cs))
    (hks : ∀ kind m, Cell.hidden kind m ks = Cell.layer ks)
    (hspans : L.spans = ds ++ .found (Cell.layer ks) :: es)
    (hds : Cell.layer ds = Cell.hidden .mathBlock L.verbatim.length bs) :
    ∃ x y, L.mathBack = x ++ (Cell.layer ks ++ y) ∧ Retouched (Cell.layer bs) x ∧
      Retouched (Cell.layer cs) y := by
  have hbs := L.blocksBack_hidden [] bs _ h
  have hm := L.blocksBack_hidden bs ks cs h
  have hcs := L.blocksBack_hidden (bs ++ ks) cs [] (by simp [h])
  obtain ⟨x, y, hback, hx, hy⟩ := L.exists_mathBack hspans fun kind m => ⟨kind, m, rfl⟩
  have hes : Cell.layer es =
      Cell.hidden .mathBlock (L.verbatim.length + (Cell.founds (bs ++ ks)).length) cs := by
    have hlayer := L.layer_spans
    rw [hspans, h, Cell.layer_append, Cell.layer_found, hds, Cell.hidden_append,
      Cell.hidden_append, hks, List.append_cancel_left_eq, List.append_cancel_left_eq] at hlayer
    rw [hlayer, Cell.founds_append, List.length_append, Nat.add_assoc]
  refine ⟨x, y, ?_, ?_, ?_⟩
  · rw [hks] at hm
    rw [hback, Cell.layer_found, Cell.layer_nil, List.append_nil, hm]
  · rw [← hbs]
    simpa [hds] using hx
  · rw [← hcs, ← hes]
    exact hy

end Layering

end MarkdownPrep
