import Mathlib.Data.List.Forall2
import MarkdownPrep.Json.Decode

/-!
# The items of an array

An array is decoded if all of its items are, and item by item (`list_eq_some_iff`).
-/

namespace MarkdownPrep.Json

variable {α β : Type}

theorem mapM_eq_some_iff {f : α → Option β} {as : List α} {bs : List β} :
    as.mapM f = some bs ↔ List.Forall₂ (fun a b => f a = some b) as bs := by
  induction as generalizing bs with
  | nil => cases bs <;> simp
  | cons a as ih =>
    rw [List.mapM_cons]
    constructor
    · intro h
      obtain ⟨b, hb, h⟩ := Option.bind_eq_some_iff.1 h
      obtain ⟨bs', hbs, heq⟩ := Option.bind_eq_some_iff.1 h
      cases heq
      exact .cons hb (ih.1 hbs)
    · rintro (_ | ⟨hb, hbs⟩)
      rw [hb, Option.bind_eq_bind, Option.bind_some, ih.2 hbs]
      rfl

theorem isSome_mapM_iff {f : α → Option β} {as : List α} :
    (as.mapM f).isSome ↔ ∀ a ∈ as, (f a).isSome := by
  induction as with
  | nil => simp
  | cons a as ih =>
    rw [List.forall_mem_cons, ← ih, List.mapM_cons]
    cases f a <;> cases as.mapM f <;> simp

namespace Decoder

theorem list_eq_some_iff {decoder : Decoder α} {d : Nat} {ts : List Tree} {as : List α} :
    list decoder (d + 1) (.array ts) = some as ↔
      List.Forall₂ (fun t a => decoder d t = some a) ts as := mapM_eq_some_iff

end Decoder

end MarkdownPrep.Json
