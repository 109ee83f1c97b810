import Mathlib.Logic.Function.Basic
import MarkdownPrep.Proofs.Stash.Dress

/-!
# Giving back and other atoms

The atoms of a layer may be replaced by layers, as renumbering replaces tokens by tokens. Where the
tokens of a store are replaced by the same tokens counted from `n` on (`Shifts`), and nothing else
is replaced by these, it does not matter whether the store is given back before or after
(`giveBackIn_of_shifts`).
-/

namespace MarkdownPrep.Stash

/-- The tokens of a kind, and nothing else, are replaced by the tokens of that kind counted from `n`
on. -/
def Shifts (ψ : Atom → Layer) (n : Nat) (kind : Kind) : Prop :=
  ∀ i, ψ (.token kind i) = [.token kind (n + i)] ∧
    ∀ a, a ≠ .token kind i → .token kind (n + i) ∉ ψ a

theorem renumber_eq_flatMap (φ : Kind → Nat → Nat) (as : Layer) :
    renumber φ as = as.flatMap fun a => [a.renumber φ] :=
  List.map_eq_flatMap

theorem shifts_renumber {φ : Kind → Nat → Nat} {kind : Kind} {n : Nat}
    (h : ∀ i, φ kind i = n + i) : Shifts (fun a => [a.renumber φ]) n kind := by
  intro i
  refine ⟨by rw [← h]; rfl, fun a ha hm => ?_⟩
  cases a with
  | char c => cases List.mem_singleton.1 hm
  | token kind' j =>
    obtain ⟨rfl, hj⟩ := Atom.token.inj (List.mem_singleton.1 hm)
    rw [h] at hj
    obtain rfl : j = i := by omega
    exact ha rfl

/-! ## One atom replaced by a layer -/

section
variable {ψ : Atom → Layer} {a : Atom} {new : Layer}

theorem flatMap_update_of_not_mem {as : Layer} (h : a ∉ as) :
    as.flatMap (Function.update ψ a new) = as.flatMap ψ := by
  induction as with
  | nil => rfl
  | cons b as ih =>
    rw [List.mem_cons, not_or] at h
    rw [List.flatMap_cons, List.flatMap_cons, ih h.2, Function.update_of_ne (Ne.symm h.1)]

theorem Shifts.update {n : Nat} {kind : Kind} (h : Shifts ψ n kind) (ha : ∀ i, a ≠ .token kind i)
    (hnew : ∀ i, .token kind i ∉ new) : Shifts (Function.update ψ a new) n kind := by
  intro i
  rw [Function.update_of_ne (ha i).symm]
  refine ⟨(h i).1, fun b hb => ?_⟩
  by_cases hba : b = a
  · rw [hba, Function.update_self]
    exact hnew _
  · rw [Function.update_of_ne hba]
    exact (h i).2 b hb

/-- What was found where the atom does not stand just gets other numbers. -/
theorem founds_flatMap_update {φ : Kind → Nat → Nat} {cs : List Cell} (h : a ∉ Cell.layer cs) :
    (Cell.founds cs).map (List.flatMap (Function.update (fun b => [b.renumber φ]) a new)) =
      Cell.founds (Cell.renumber φ cs) := by
  rw [Cell.founds_renumber]
  apply List.map_congr_left
  intro m hm
  rw [flatMap_update_of_not_mem fun ha => h ((Cell.infix_layer_of_mem_founds hm).subset ha),
    renumber_eq_flatMap]

end

/-! ## Giving back -/

section
variable {ψ : Atom → Layer} {p : Kind → Bool}

theorem exchange_of_shifts {kind : Kind} {n i : Nat} (h : Shifts ψ n kind) (new as : Layer) :
    exchange kind (n + i) (new.flatMap ψ) (as.flatMap ψ) = (exchange kind i new as).flatMap ψ := by
  induction as with
  | nil => rfl
  | cons a as ih =>
    rw [List.flatMap_cons, exchange_append, ih, exchange_cons, List.flatMap_append]
    refine congrArg (· ++ _) ?_
    by_cases ha : a = .token kind i
    · rw [if_pos ha, ha, (h i).1, exchange_self_cons, exchange_nil, List.append_nil]
    · rw [if_neg ha, exchange_of_not_mem ((h i).2 a ha), List.flatMap_singleton]

/-- **Giving back commutes with replacing atoms.** -/
theorem giveBackIn_of_shifts {es old : Store} (h : ∀ e ∈ es, Shifts ψ old.length e.1) (as : Layer) :
    giveBackIn p ((es.map fun e => (e.1, e.2.flatMap ψ)) ++ old) (as.flatMap ψ) =
      giveBackIn p old ((giveBackIn p es as).flatMap ψ) := by
  induction es generalizing as with
  | nil => rfl
  | cons e es ih =>
    obtain ⟨kind, new⟩ := e
    rw [List.forall_mem_cons] at h
    have hlen : ((es.map fun e => (e.1, e.2.flatMap ψ)) ++ old).length = old.length + es.length := by
      rw [List.length_append, List.length_map, Nat.add_comm]
    rw [List.map_cons, List.cons_append, giveBackIn, giveBackIn, hlen]
    split
    · rw [exchange_of_shifts h.1, ih h.2]
    · exact ih h.2 as

/-- Giving back commutes with renumbering. -/
theorem giveBackIn_renumber {φ : Kind → Nat → Nat} (es old : Store)
    (h : ∀ e ∈ es, ∀ i, φ e.1 i = old.length + i) (as : Layer) :
    giveBackIn p ((es.map fun e => (e.1, renumber φ e.2)) ++ old) (renumber φ as) =
      giveBackIn p old (renumber φ (giveBackIn p es as)) := by
  simp only [renumber_eq_flatMap]
  exact giveBackIn_of_shifts (fun e he => shifts_renumber (h e he)) as

/-- What was put aside, changed and put on another store. -/
theorem stored_map {g : Layer → Layer} (kind : Kind) {cs ds : List Cell}
    (h : (Cell.founds cs).map g = Cell.founds ds) (es old : Store) :
    stored kind ds ((es.map fun e => (e.1, g e.2)) ++ old) =
      ((stored kind cs es).map fun e => (e.1, g e.2)) ++ old := by
  rw [stored, stored, ← h]
  simp [Function.comp_def]

/-- Cells put aside with other numbers. -/
theorem stored_renumber {φ : Kind → Nat → Nat} (kind : Kind) (cs : List Cell) (es old : Store) :
    stored kind (Cell.renumber φ cs) ((es.map fun e => (e.1, renumber φ e.2)) ++ old) =
      ((stored kind cs es).map fun e => (e.1, renumber φ e.2)) ++ old :=
  stored_map kind Cell.founds_renumber.symm es old

end

end MarkdownPrep.Stash
