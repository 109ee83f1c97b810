import Mathlib.Data.List.TakeWhile
import MarkdownPrep.Proofs.Text.Ends
import MarkdownPrep.Proofs.Verbatim.Frame

/-!
# Fence lines by their parts

A line opens a fence if it is an indent, a run of a marker and an info string (`opening?_iff`), and
closes one if it is an indent, a run of the marker and white space (`endsAt_iff`).
-/

namespace MarkdownPrep

namespace Text

theorem mem_trim {s : Text} {c : Char} (h : c ∈ s) (hc : isBlank c = false) : c ∈ trim s := by
  have hstart : c ∈ trimStart s := by
    have hsplit : s.takeWhile isBlank ++ trimStart s = s := List.takeWhile_append_dropWhile
    rw [← hsplit] at h
    refine (List.mem_append.1 h).resolve_left fun hm => ?_
    rw [List.mem_takeWhile_imp hm] at hc
    cases hc
  obtain ⟨t, ht, hblank⟩ := exists_trimEnd_append (trimStart s)
  rw [ht] at hstart
  refine (List.mem_append.1 hstart).resolve_right fun hm => ?_
  rw [hblank c hm] at hc
  cases hc

theorem mem_of_mem_trim {s : Text} {c : Char} (h : c ∈ trim s) : c ∈ s :=
  (List.dropWhile_suffix _).subset (List.IsPrefix.subset (Text.trimEnd_prefix _) h)

theorem trimEnd_replicate {c : Char} (hc : isBlank c = false) (n : Nat) :
    trimEnd (List.replicate n c) = List.replicate n c := by
  induction n with
  | zero => rfl
  | succ n ih =>
    rw [List.replicate_succ, trimEnd, ih]
    cases n with
    | zero => simp [hc]
    | succ n => rfl

/-- What stands at the front of a text as long as it is one character. -/
theorem takeWhile_eq_replicate (s : Text) (c : Char) :
    s.takeWhile (· = c) = List.replicate (s.takeWhile (· = c)).length c :=
  List.eq_replicate_iff.2 ⟨rfl, fun _ hb => by simpa using List.mem_takeWhile_imp hb⟩

theorem take_eq_replicate {s : Text} {c : Char} {k : Nat}
    (h : k ≤ (s.takeWhile (· = c)).length) : s.take k = List.replicate k c := by
  have htake : (s.takeWhile (· = c) ++ s.dropWhile (· = c)).take k = _ :=
    List.take_append_of_le_length h
  rw [List.takeWhile_append_dropWhile] at htake
  rw [htake, takeWhile_eq_replicate, List.take_replicate, Nat.min_eq_left h]

theorem takeWhile_replicate_append {c : Char} {s : Text} (h : s.head? ≠ some c) (n : Nat) :
    (List.replicate n c ++ s).takeWhile (· = c) = List.replicate n c := by
  rw [List.takeWhile_append_of_pos (by simp)]
  cases s with
  | nil => simp
  | cons d s =>
    rw [List.takeWhile_cons_of_neg, List.append_nil]
    simpa using h

end Text

namespace Fence

theorem IsMarker.not_isBlank {m : Char} (h : IsMarker m) : isBlank m = false := by
  rcases h with rfl | rfl <;> decide

theorem IsMarker.ne_space {m : Char} (h : IsMarker m) : m ≠ ' ' := by
  rintro rfl
  exact absurd h.not_isBlank (by decide)

/-- A line is an indent and what follows it. -/
theorem exists_indent (line : Text) :
    ∃ k ≤ 3, line = List.replicate k ' ' ++ unindent line := by
  refine ⟨min 3 (line.takeWhile (· = ' ')).length, Nat.min_le_left _ _, ?_⟩
  rw [unindent, ← Text.take_eq_replicate (Nat.min_le_right _ _), List.take_append_drop]

theorem unindent_append {k : Nat} (hk : k ≤ 3) {s : Text} (h : s.head? ≠ some ' ') :
    unindent (List.replicate k ' ' ++ s) = s := by
  rw [unindent, Text.takeWhile_replicate_append h, List.length_replicate, Nat.min_eq_right hk]
  exact List.drop_left' List.length_replicate

/-- A line with the parts of an opening fence line: an indent, `n` markers `m` and an info string. -/
def IsOpening (m : Char) (n : Nat) (line : Text) : Prop :=
  IsMarker m ∧ 3 ≤ n ∧ ∃ k ≤ 3, ∃ info, line = List.replicate k ' ' ++ (List.replicate n m ++ info) ∧
    info.head? ≠ some m ∧ (m = '`' → '`' ∉ info)

theorem isOpening_of_opening? {line : Text} {o : Opening} (h : opening? line = some o) :
    IsOpening o.marker o.length line := by
  obtain ⟨k, hk, hline⟩ := exists_indent line
  simp only [opening?] at h
  split at h
  · cases h
  · next marker rest hrest =>
    split at h
    · next hcond =>
      obtain rfl := Option.some.inj h
      simp only [Bool.and_eq_true, Bool.or_eq_true, decide_eq_true_eq, Bool.not_eq_true',
        Bool.and_eq_false_imp] at hcond
      have hsplit := List.takeWhile_append_dropWhile (p := (· = marker)) (l := unindent line)
      rw [Text.takeWhile_eq_replicate] at hsplit
      refine ⟨hcond.1.1, hcond.1.2, k, hk, _, by rw [hsplit]; exact hline, ?_, fun htick hm => ?_⟩
      · intro hhead
        have hnot := List.head?_dropWhile_not (p := (· = marker)) (l := unindent line)
        rw [hhead] at hnot
        simp at hnot
      · have hno := hcond.2 htick
        rw [Text.drop_length_takeWhile] at hno
        have hin := Text.mem_trim hm (by decide)
        simp [hin] at hno
    · cases h

theorem IsOpening.opening? {m : Char} {n : Nat} {line : Text} (h : IsOpening m n line) :
    ∃ language, Fence.opening? line = some ⟨m, n, language⟩ := by
  obtain ⟨hm, hn, k, hk, info, rfl, hhead, htick⟩ := h
  obtain ⟨n, rfl⟩ : ∃ n', n = n' + 1 := ⟨n - 1, by omega⟩
  have hrun : List.replicate (n + 1) m ++ info = m :: (List.replicate n m ++ info) := rfl
  have hun : unindent (List.replicate k ' ' ++ (List.replicate (n + 1) m ++ info)) =
      List.replicate (n + 1) m ++ info :=
    unindent_append hk (by rw [hrun]; simpa using hm.ne_space)
  refine ⟨Text.firstWord? (Text.trim info), ?_⟩
  rw [Fence.opening?]
  dsimp only
  rw [hun, hrun]
  dsimp only
  rw [← hrun, Text.takeWhile_replicate_append hhead, List.length_replicate,
    List.drop_left' List.length_replicate, if_pos]
  simp only [Bool.and_eq_true, Bool.or_eq_true, decide_eq_true_eq, Bool.not_eq_true',
    Bool.and_eq_false_imp]
  refine ⟨⟨hm, hn⟩, fun h => ?_⟩
  simpa using mt Text.mem_of_mem_trim (htick h)

/-- **A line opens a fence if it has the parts of an opening line.** -/
theorem opening?_iff {m : Char} {n : Nat} {line : Text} :
    (∃ language, opening? line = some ⟨m, n, language⟩) ↔ IsOpening m n line :=
  ⟨fun ⟨_, h⟩ => isOpening_of_opening? h, IsOpening.opening?⟩

/-- A line with the parts of a closing fence line: an indent, at least `n` markers `m` and white
space. -/
def IsClosing (m : Char) (n : Nat) (line : Text) : Prop :=
  ∃ k ≤ 3, ∃ j ≥ n, ∃ t, line = List.replicate k ' ' ++ (List.replicate j m ++ t) ∧
    ∀ c ∈ t, isBlank c

/-- **A line closes a fence if it has the parts of a closing line.** -/
theorem endsAt_iff {o : Opening} (hm : IsMarker o.marker) (hn : 3 ≤ o.length) {line : Text} :
    o.endsAt line ↔ IsClosing o.marker o.length line := by
  constructor
  · intro h
    obtain ⟨k, hk, hline⟩ := exists_indent line
    obtain ⟨t, ht, hblank⟩ := Text.exists_trimEnd_append (unindent line)
    simp only [Opening.endsAt, Bool.and_eq_true, decide_eq_true_eq, List.all_eq_true] at h
    refine ⟨k, hk, _, h.1, t, ?_, hblank⟩
    have hrun : Text.trimEnd (unindent line) =
        List.replicate (Text.trimEnd (unindent line)).length o.marker :=
      List.eq_replicate_iff.2 ⟨rfl, h.2⟩
    rw [← hrun, ← ht]
    exact hline
  · rintro ⟨k, hk, j, hj, t, rfl, hblank⟩
    obtain ⟨j, rfl⟩ : ∃ j', j = j' + 1 := ⟨j - 1, by omega⟩
    have hun : unindent (List.replicate k ' ' ++ (List.replicate (j + 1) o.marker ++ t)) =
        List.replicate (j + 1) o.marker ++ t :=
      unindent_append hk (by rw [List.replicate_succ]; simpa using hm.ne_space)
    rw [Opening.endsAt, hun, Text.trimEnd_append_of_blank _ hblank, Text.trimEnd_replicate hm.not_isBlank]
    simpa using hj

end Fence

end MarkdownPrep
