import Mathlib.Data.Char
import Mathlib.Data.List.Lex
import MarkdownPrep.Json.Decode

/-!
# Members of objects

Members keep every key once, in the order they come (`nodup_insertLast`) or in the order of the
keys (`sorted_insertSorted`). A list of members that is so already is what it becomes when its
members are put in one after the other (`foldl_insertLast`, `foldl_insertSorted`). The order of the
keys is the lexicographic one (`textBefore_iff`).
-/

namespace MarkdownPrep.Json

variable {α : Type} {key : Text} {v : α} {ms : List (Text × α)}

/-! ## In the order they come -/

/-- A new key comes last. -/
theorem insertLast_of_not_mem (h : key ∉ ms.map Prod.fst) :
    insertLast key v ms = ms ++ [(key, v)] := by
  induction ms with
  | nil => rfl
  | cons m ms ih =>
    rw [List.map_cons, List.mem_cons, not_or] at h
    rw [insertLast, if_neg h.1, ih h.2]
    rfl

theorem eq_or_mem_of_mem_insertLast {m : Text × α} (h : m ∈ insertLast key v ms) :
    m = (key, v) ∨ m ∈ ms := by
  induction ms with
  | nil => exact .inl (List.mem_singleton.1 h)
  | cons e ms ih =>
    rw [insertLast] at h
    split at h
    · next hkey =>
      subst hkey
      exact (List.mem_cons.1 h).imp_right (List.mem_cons_of_mem _)
    · rcases List.mem_cons.1 h with rfl | h
      · exact .inr List.mem_cons_self
      · exact (ih h).imp_right (List.mem_cons_of_mem _)

/-- Every key stays there once. -/
theorem nodup_insertLast (key : Text) (v : α) (h : (ms.map Prod.fst).Nodup) :
    ((insertLast key v ms).map Prod.fst).Nodup := by
  by_cases hkey : key ∈ ms.map Prod.fst
  · have hsame : (insertLast key v ms).map Prod.fst = ms.map Prod.fst := by
      clear h
      induction ms with
      | nil => exact absurd hkey List.not_mem_nil
      | cons e ms ih =>
        rw [List.map_cons, List.mem_cons] at hkey
        rw [insertLast]
        split
        · rfl
        · next hne => rw [List.map_cons, ih (hkey.resolve_left hne), List.map_cons]
    rwa [hsame]
  · rw [insertLast_of_not_mem hkey, List.map_append]
    refine List.nodup_append.2 ⟨h, List.pairwise_singleton _ _, fun k hk k' hk' => ?_⟩
    rw [List.mem_singleton.1 hk']
    rintro rfl
    exact hkey hk

/-- Members with new keys come last, in order. -/
theorem foldl_insertLast {more : List (Text × α)} (h : ((ms ++ more).map Prod.fst).Nodup) :
    more.foldl (fun seen m => insertLast m.1 m.2 seen) ms = ms ++ more := by
  induction more generalizing ms with
  | nil => rw [List.foldl_nil, List.append_nil]
  | cons m more ih =>
    have hnew : m.1 ∉ ms.map Prod.fst := by
      rw [List.map_append, List.map_cons] at h
      exact fun hm => (List.nodup_append.1 h).2.2 _ hm _ List.mem_cons_self rfl
    rw [List.foldl_cons, insertLast_of_not_mem hnew, ih, List.append_assoc]
    · rfl
    · rwa [List.append_assoc]

/-! ## In the order of the keys -/

theorem textBefore_iff {s t : Text} : textBefore s t ↔ s < t := by
  induction s generalizing t with
  | nil => cases t <;> simp [textBefore]
  | cons c s ih =>
    cases t with
    | nil => simp [textBefore]
    | cons d t =>
      have hchar : c.toNat < d.toNat ↔ c < d := Iff.rfl
      rw [textBefore, List.cons_lt_cons_iff, ← ih, ← hchar]
      simp

/-- The keys of some members are in order, each there once. -/
def Sorted (ms : List (Text × α)) : Prop := (ms.map Prod.fst).Pairwise (· < ·)

theorem Sorted.nodup (h : Sorted ms) : (ms.map Prod.fst).Nodup := List.Pairwise.imp ne_of_lt h

theorem eq_or_mem_of_mem_insertSorted {m : Text × α} (h : m ∈ insertSorted key v ms) :
    m = (key, v) ∨ m ∈ ms := by
  induction ms with
  | nil => exact .inl (List.mem_singleton.1 h)
  | cons e ms ih =>
    rw [insertSorted] at h
    split_ifs at h
    · exact (List.mem_cons.1 h).imp_right (List.mem_cons_of_mem _)
    · exact List.mem_cons.1 h
    · rcases List.mem_cons.1 h with rfl | h
      · exact .inr List.mem_cons_self
      · exact (ih h).imp_right (List.mem_cons_of_mem _)

theorem sorted_insertSorted (key : Text) (v : α) (h : Sorted ms) :
    Sorted (insertSorted key v ms) := by
  induction ms with
  | nil => exact List.pairwise_singleton _ _
  | cons e ms ih =>
    have hfirst : ∀ k ∈ ms.map Prod.fst, e.1 < k := (List.pairwise_cons.1 h).1
    rw [insertSorted]
    split_ifs with heq hbefore
    · subst heq
      exact h
    · rw [textBefore_iff] at hbefore
      refine List.pairwise_cons.2 ⟨fun k hk => ?_, h⟩
      rcases List.mem_cons.1 hk with rfl | hk
      · exact hbefore
      · exact hbefore.trans (hfirst k hk)
    · rw [textBefore_iff] at hbefore
      refine List.pairwise_cons.2 ⟨fun k hk => ?_, ih (List.pairwise_cons.1 h).2⟩
      obtain ⟨m, hm, rfl⟩ := List.mem_map.1 hk
      rcases eq_or_mem_of_mem_insertSorted hm with rfl | hm
      · exact (lt_or_gt_of_ne heq).resolve_left hbefore
      · exact hfirst _ (List.mem_map_of_mem hm)

/-- A key that is after all others comes last. -/
theorem insertSorted_of_lt (h : ∀ k ∈ ms.map Prod.fst, k < key) :
    insertSorted key v ms = ms ++ [(key, v)] := by
  induction ms with
  | nil => rfl
  | cons e ms ih =>
    rw [List.map_cons, List.forall_mem_cons] at h
    have hnot : ¬ textBefore key e.1 := fun hb => lt_asymm h.1 (textBefore_iff.1 hb)
    rw [insertSorted, if_neg h.1.ne', if_neg hnot, ih h.2]
    rfl

/-- Members in the order of their keys come one after the other. -/
theorem foldl_insertSorted {more : List (Text × α)} (h : Sorted (ms ++ more)) :
    more.foldl (fun sorted m => insertSorted m.1 m.2 sorted) ms = ms ++ more := by
  induction more generalizing ms with
  | nil => rw [List.foldl_nil, List.append_nil]
  | cons m more ih =>
    have hlast : ∀ k ∈ ms.map Prod.fst, k < m.1 := by
      rw [Sorted, List.map_append, List.map_cons] at h
      exact fun k hk => (List.pairwise_append.1 h).2.2 k hk _ List.mem_cons_self
    rw [List.foldl_cons, insertSorted_of_lt hlast, ih, List.append_assoc]
    · rfl
    · rwa [List.append_assoc]

theorem sorted_foldl_insertSorted (more : List (Text × α)) (h : Sorted ms) :
    Sorted (more.foldl (fun sorted m => insertSorted m.1 m.2 sorted) ms) :=
  List.foldlRecOn more _ h fun _ hsorted m _ => sorted_insertSorted m.1 m.2 hsorted

theorem mem_of_mem_foldl_insertSorted {more : List (Text × α)} {m : Text × α}
    (h : m ∈ more.foldl (fun sorted m => insertSorted m.1 m.2 sorted) ms) : m ∈ ms ++ more := by
  induction more generalizing ms with
  | nil => rwa [List.append_nil]
  | cons e more ih =>
    have hm := ih h
    rw [List.mem_append] at hm ⊢
    rcases hm with hm | hm
    · exact (eq_or_mem_of_mem_insertSorted hm).symm.imp_right fun heq => List.mem_cons.2 (.inl heq)
    · exact .inr (List.mem_cons_of_mem e hm)

end MarkdownPrep.Json
