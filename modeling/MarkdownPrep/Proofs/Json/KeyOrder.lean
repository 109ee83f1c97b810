import Mathlib.Data.List.Induction
import MarkdownPrep.Proofs.Json.Members

/-!
# Orders of keys

A list of members with repeated keys becomes an object in one of two orders. Put in one after the
other, keys stand where they came first (`inSourceOrder_foldl`); put in by their keys, they stand in
the order of the keys (`inKeyOrder_foldl`). Either way a key has the value that it was given last.
The two orders are one where the keys come in their order (`InKeyOrder.inSourceOrder_iff`).
-/

namespace MarkdownPrep.Json

variable {α : Type}

/-- The members `r` of an object that was written with the members `es`: every key stands where it
was first, with its last value. -/
structure InSourceOrder (es r : List (Text × α)) : Prop where
  keys : r.map Prod.fst = (es.map Prod.fst).eraseDups
  values : ∀ key, r.lookup key = es.reverse.lookup key

/-- The members `r` of an object that was written with the members `es`: the keys stand in their
order, each with its last value. -/
structure InKeyOrder (es r : List (Text × α)) : Prop where
  keys : Sorted r
  values : ∀ key, r.lookup key = es.reverse.lookup key

theorem lookup_cons_eq_ite (m : Text × α) (ms : List (Text × α)) (key : Text) :
    (m :: ms).lookup key = if key = m.1 then some m.2 else ms.lookup key := by
  by_cases hkey : key = m.1
  · rw [if_pos hkey, hkey, List.lookup_cons_self]
  · rw [if_neg hkey, List.lookup_cons, beq_false_of_ne hkey]

theorem mem_map_fst_iff {ms : List (Text × α)} {key : Text} :
    key ∈ ms.map Prod.fst ↔ (ms.lookup key).isSome := by
  simp [List.lookup_isSome_iff]

/-! ## Put in one after the other -/

theorem lookup_insertLast (k : Text) (v : α) (ms : List (Text × α)) (key : Text) :
    (insertLast k v ms).lookup key = if key = k then some v else ms.lookup key := by
  induction ms with
  | nil => exact lookup_cons_eq_ite (k, v) [] key
  | cons m ms ih =>
    rw [insertLast]
    split
    · next hk =>
      subst hk
      simp only [lookup_cons_eq_ite]
      split <;> rfl
    · next hk =>
      rw [lookup_cons_eq_ite, ih, lookup_cons_eq_ite]
      by_cases hkey : key = m.1
      · simp [hkey, Ne.symm hk]
      · simp [hkey]

theorem map_fst_insertLast (k : Text) (v : α) (ms : List (Text × α)) :
    (insertLast k v ms).map Prod.fst =
      if k ∈ ms.map Prod.fst then ms.map Prod.fst else ms.map Prod.fst ++ [k] := by
  induction ms with
  | nil => rfl
  | cons m ms ih =>
    rw [insertLast]
    split
    · next hk => simp [hk]
    · next hk =>
      rw [List.map_cons, ih]
      by_cases hmem : k ∈ ms.map Prod.fst <;> simp_all

/-- **Members put in one after the other stand in the order of the source.** -/
theorem inSourceOrder_foldl (es : List (Text × α)) :
    InSourceOrder es (es.foldl (fun seen m => insertLast m.1 m.2 seen) []) := by
  induction es using List.reverseRecOn with
  | nil => exact ⟨rfl, fun _ => rfl⟩
  | append_singleton es m ih =>
    constructor
    · rw [List.foldl_concat, map_fst_insertLast, ih.keys, List.map_append, List.eraseDups_append,
        List.map_singleton]
      by_cases hmem : m.1 ∈ es.map Prod.fst
      · have hnone : [m.1].removeAll (es.map Prod.fst) = [] := by simpa [List.removeAll] using hmem
        rw [if_pos (List.mem_eraseDups.2 hmem), hnone, List.eraseDups_nil, List.append_nil]
      · have hone : [m.1].removeAll (es.map Prod.fst) = [m.1] := by
          simpa [List.removeAll] using hmem
        rw [if_neg fun h => hmem (List.mem_eraseDups.1 h), hone]
        rfl
    · intro key
      rw [List.foldl_concat, lookup_insertLast, ih.values, List.reverse_append,
        List.reverse_singleton, List.singleton_append, lookup_cons_eq_ite]

theorem nodup_eraseDups_keys (es : List (Text × α)) : (es.map Prod.fst).eraseDups.Nodup := by
  rw [← (inSourceOrder_foldl es).keys]
  exact List.foldlRecOn (motive := fun ms : List (Text × α) => (ms.map Prod.fst).Nodup) es _
    List.nodup_nil fun _ h m _ => nodup_insertLast m.1 m.2 h

/-! ## Put in by their keys -/

theorem lookup_insertSorted (k : Text) (v : α) (ms : List (Text × α)) (key : Text) :
    (insertSorted k v ms).lookup key = if key = k then some v else ms.lookup key := by
  induction ms with
  | nil => exact lookup_cons_eq_ite (k, v) [] key
  | cons m ms ih =>
    rw [insertSorted]
    split
    · next hk =>
      subst hk
      simp only [lookup_cons_eq_ite]
      split <;> rfl
    split
    · exact lookup_cons_eq_ite (k, v) _ key
    · next hk _ =>
      rw [lookup_cons_eq_ite, ih, lookup_cons_eq_ite]
      by_cases hkey : key = m.1
      · simp [hkey, Ne.symm hk]
      · simp [hkey]

/-- **Members put in by their keys stand in the order of the keys.** -/
theorem inKeyOrder_foldl (es : List (Text × α)) :
    InKeyOrder es (es.foldl (fun sorted m => insertSorted m.1 m.2 sorted) []) := by
  refine ⟨sorted_foldl_insertSorted es List.Pairwise.nil, fun key => ?_⟩
  induction es using List.reverseRecOn with
  | nil => rfl
  | append_singleton es m ih =>
    rw [List.foldl_concat, lookup_insertSorted, ih, List.reverse_append, List.reverse_singleton,
      List.singleton_append, lookup_cons_eq_ite]

/-- **Members in the order of the keys are in the order of the source** if and only if the keys come
in their order there. -/
theorem InKeyOrder.inSourceOrder_iff {es r : List (Text × α)} (h : InKeyOrder es r) :
    InSourceOrder es r ↔ (es.map Prod.fst).eraseDups.Pairwise (· < ·) := by
  constructor
  · intro hsource
    rw [← hsource.keys]
    exact h.keys
  · intro hsorted
    -- both lists have the same keys, and both are sorted
    have hsame : ∀ key, key ∈ r.map Prod.fst ↔ key ∈ (es.map Prod.fst).eraseDups := by
      intro key
      rw [mem_map_fst_iff, h.values, ← mem_map_fst_iff, List.map_reverse, List.mem_reverse,
        List.mem_eraseDups]
    have hperm := (List.perm_ext_iff_of_nodup h.keys.nodup (nodup_eraseDups_keys es)).2 hsame
    refine ⟨hperm.eq_of_pairwise (fun k k' _ _ hlt hgt => ?_) h.keys hsorted, h.values⟩
    exact absurd hgt (lt_asymm hlt)

end MarkdownPrep.Json
