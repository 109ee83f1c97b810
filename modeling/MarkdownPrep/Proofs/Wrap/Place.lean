import MarkdownPrep.Proofs.Text.CharCode
import MarkdownPrep.Proofs.Text.Pieces
import MarkdownPrep.Wrap.Basic

/-!
# Where wrapped stretches stand

A stretch that a pass wraps starts at the start of the text or after white space, with a character
that is not white space, and ends before white space or at the end; it holds no dollar and no
sentinel (`InPlace`, `placed_pieces`). For the readers of candidates this comes down to two facts:
where an expression starts (`exists_head_of_candidate`) and that it ends at a break
(`atBreak_of_candidate`).
-/

namespace MarkdownPrep

namespace Text

/-- What trimming takes off a text is white space. -/
theorem isBlank_of_mem_drop_trimEnd {s : Text} :
    ∀ c ∈ s.drop (trimEnd s).length, isBlank c := by
  induction s with
  | nil => simp
  | cons d s ih =>
    rw [trimEnd]
    split
    · next hnil =>
      rw [hnil] at ih
      split
      · next hd => simpa using ⟨hd, ih⟩
      · simpa using ih
    · next t ht => simpa using ih

theorem trimEnd_cons {c : Char} (h : ¬ isBlank c) (s : Text) :
    trimEnd (c :: s) = c :: trimEnd s := by
  rw [trimEnd]
  split
  · next hnil => rw [if_neg h, hnil]
  · rfl

end Text

namespace Wrap

/-! ## Where an expression ends -/

/-- A free stretch ends at a break. -/
theorem atBreak_of_reach {limit n : Nat} {s : Text} (h : reach limit s = some n) :
    atBreak (s.drop n) := by
  induction s generalizing limit n with
  | nil => simp [atBreak]
  | cons c s ih =>
    unfold reach at h
    rcases Option.or_eq_some_iff.1 h with h | ⟨-, h⟩
    · cases limit with
      | zero => cases h
      | succ limit =>
        dsimp only at h
        split at h
        · obtain ⟨m, hm, rfl⟩ := Option.map_eq_some_iff.1 h
          exact ih hm
        · cases h
    · split at h
      · next hb =>
        cases h
        exact hb
      · cases h

/-- What is left of a text is reached by dropping the rest of it. -/
theorem drop_length_sub_add {s t : Text} (h : t <:+ s) (n : Nat) :
    s.drop (s.length - t.length + n) = t.drop n := by
  obtain ⟨u, rfl⟩ := h
  rw [List.length_append, Nat.add_sub_cancel, List.drop_append, List.drop_eq_nil_of_le (by omega),
    List.nil_append, Nat.add_sub_cancel_left]

theorem suffix_of_afterEquals? {st : LeftState} {s t : Text} (h : afterEquals? st s = some t) :
    t <:+ s := by
  induction s generalizing st with
  | nil => cases h
  | cons c s ih =>
    simp only [afterEquals?] at h
    split at h
    · exact (ih h).trans (List.suffix_cons c s)
    · split at h
      · cases h
        exact List.suffix_cons c _
      · cases h

theorem atBreak_of_rightSide? {s : Text} {n : Nat} (h : rightSide? s = some n) :
    atBreak (s.drop n) := by
  obtain ⟨skipped, -, h⟩ := List.exists_of_findSome?_eq_some h
  split at h
  · next m hm =>
    cases h
    rw [← List.drop_drop]
    exact atBreak_of_reach hm
  · cases h

theorem atBreak_of_equation? {s : Text} {n : Nat} (h : equation? s = some n) :
    atBreak (s.drop n) := by
  simp only [equation?, Option.bind_eq_bind, Option.bind_eq_some_iff, Option.some.injEq] at h
  obtain ⟨right, hr, m, hm, rfl⟩ := h
  rw [drop_length_sub_add (suffix_of_afterEquals? hr)]
  exact atBreak_of_rightSide? hm

theorem suffix_of_afterWord? {word s t : Text} (h : afterWord? word s = some t) : t <:+ s := by
  unfold afterWord? at h
  split at h
  · cases h
    exact List.drop_suffix _ _
  · cases h

theorem suffix_of_afterGroup? {s t : Text} (h : afterGroup? s = some t) : t <:+ s := by
  unfold afterGroup? at h
  split at h
  · next c u =>
    split at h
    · cases h
    · split at h
      · next d v hv =>
        cases h
        have hsuf := List.dropWhile_suffix (l := u) (· ≠ '}')
        rw [hv] at hsuf
        exact ((List.suffix_cons d _).trans hsuf).trans
          ((List.suffix_cons c u).trans (List.suffix_cons _ _))
      · cases h
  · cases h

theorem atBreak_of_fraction? {s : Text} {n : Nat} (h : fraction? s = some n) :
    atBreak (s.drop n) := by
  simp only [fraction?, Option.bind_eq_bind, Option.bind_eq_some_iff] at h
  obtain ⟨s₁, h₁, s₂, h₂, s₃, h₃, h⟩ := h
  split at h
  · next hbreak =>
    cases h
    have hsuf : s₃ <:+ s := (suffix_of_afterGroup? h₃).trans <|
      (suffix_of_afterGroup? h₂).trans (suffix_of_afterWord? h₁)
    have hdrop := drop_length_sub_add hsuf 0
    rw [Nat.add_zero, List.drop_zero] at hdrop
    rwa [hdrop]
  · cases h

theorem atBreak_of_function? {s : Text} {n : Nat} (h : function? s = some n) :
    atBreak (s.drop n) := by
  simp only [function?, Option.bind_eq_bind, Option.bind_eq_some_iff, Option.some.injEq] at h
  obtain ⟨s₁, h₁, s₂, h₂, m, hm, rfl⟩ := h
  obtain ⟨name, -, h₂⟩ := List.exists_of_findSome?_eq_some h₂
  have hsuf : s₂ <:+ s := (suffix_of_afterWord? (Option.filter_eq_some_iff.1 h₂).1).trans
    (suffix_of_afterWord? h₁)
  rw [drop_length_sub_add hsuf]
  exact atBreak_of_reach hm

theorem atBreak_dropWhile (s : Text) : atBreak (s.dropWhile (!isBlank ·)) := by
  induction s with
  | nil => rfl
  | cons c s ih =>
    rw [List.dropWhile_cons]
    split
    · exact ih
    · next hb => simpa [atBreak] using hb

theorem atBreak_of_formula? {s : Text} {n : Nat} (h : formula? s = some n) :
    atBreak (s.drop n) := by
  simp only [formula?] at h
  split at h
  · cases h
    have hsplit := List.takeWhile_append_dropWhile (p := (!isBlank ·)) (l := s)
    have hdrop := congrArg (List.drop (s.takeWhile (!isBlank ·)).length) hsplit
    rw [List.drop_left] at hdrop
    rw [← hdrop]
    exact atBreak_dropWhile s
  · cases h

/-- **An expression ends at a break.** -/
theorem atBreak_of_candidate {candidate : Text → Option Nat} (h : candidate ∈ candidates) {s : Text}
    {n : Nat} (hn : candidate s = some n) : atBreak (s.drop n) := by
  simp only [candidates, List.mem_cons, List.not_mem_nil, or_false] at h
  rcases h with rfl | rfl | rfl | rfl
  · exact atBreak_of_equation? hn
  · exact atBreak_of_fraction? hn
  · exact atBreak_of_function? hn
  · exact atBreak_of_formula? hn

/-! ## Where an expression starts -/

/-- ASCII letters and digits are not white space. -/
theorem not_isBlank_of_isAlphanum {c : Char} (h : c.isAlphanum) : ¬ isBlank c := by
  intro hb
  rw [isAlphanum_iff] at h
  simp only [isBlank, inRanges, blankRanges, List.any_cons, List.any_nil, Bool.or_false,
    Bool.or_eq_true, decide_eq_true_eq, Bool.and_eq_true] at hb
  omega

theorem exists_head_of_afterWord? {word s t : Text} {c : Char} (hw : word.head? = some c)
    (h : afterWord? word s = some t) : ∃ u, s = c :: u := by
  obtain ⟨w, rfl⟩ := List.head?_eq_some_iff.1 hw
  unfold afterWord? at h
  split at h
  · next hp =>
    obtain ⟨v, rfl⟩ := List.isPrefixOf_iff_prefix.1 hp
    exact ⟨w ++ v, rfl⟩
  · cases h

/-- **An expression starts with a character that is not white space.** -/
theorem exists_head_of_candidate {candidate : Text → Option Nat} (h : candidate ∈ candidates)
    {s : Text} {n : Nat} (hn : candidate s = some n) : ∃ c u, s = c :: u ∧ ¬ isBlank c := by
  simp only [candidates, List.mem_cons, List.not_mem_nil, or_false] at h
  rcases h with rfl | rfl | rfl | rfl
  · simp only [equation?, Option.bind_eq_bind, Option.bind_eq_some_iff] at hn
    obtain ⟨right, hr, -⟩ := hn
    cases s with
    | nil => cases hr
    | cons c s =>
      refine ⟨c, s, rfl, ?_⟩
      by_cases hc : c.isAlphanum
      · exact not_isBlank_of_isAlphanum hc
      · simp [afterEquals?, LeftState.step, LeftState.mayEqual, hc] at hr
  · simp only [fraction?, Option.bind_eq_bind, Option.bind_eq_some_iff] at hn
    obtain ⟨s₁, h₁, -⟩ := hn
    obtain ⟨u, rfl⟩ := exists_head_of_afterWord? (c := '\\') rfl h₁
    exact ⟨_, u, rfl, by decide⟩
  · simp only [function?, Option.bind_eq_bind, Option.bind_eq_some_iff] at hn
    obtain ⟨s₁, h₁, -⟩ := hn
    obtain ⟨u, rfl⟩ := exists_head_of_afterWord? (c := '\\') rfl h₁
    exact ⟨_, u, rfl, by decide⟩
  · simp only [formula?] at hn
    split at hn
    · next hf =>
      cases s with
      | nil => exact absurd hf (by decide)
      | cons c s =>
        refine ⟨c, s, rfl, fun hb => ?_⟩
        rw [List.takeWhile_cons_of_neg (by simpa using hb)] at hf
        exact absurd hf (by decide)
    · cases hn

/-! ## Wrapped stretches -/

/-- A stretch `t` that is wrapped between `s` and `u`. -/
structure InPlace (sentinel : Char) (s t u : Text) : Prop where
  before : s.getLast?.all isBlank
  head : ∃ c w, t = c :: w ∧ ¬ isBlank c
  after : atBreak u
  dollar : '$' ∉ t
  sentinel : sentinel ∉ t

theorem inPlace_trimEnd {sentinel : Char} {x u v : Text} (hbefore : x.getLast?.all isBlank)
    (hhead : ∃ c w, u = c :: w ∧ ¬ isBlank c) (hafter : atBreak v) (hdollar : '$' ∉ u)
    (hsentinel : sentinel ∉ u) :
    InPlace sentinel x (Text.trimEnd u) (u.drop (Text.trimEnd u).length ++ v) := by
  have hsub := (Text.trimEnd_prefix u).subset
  refine ⟨hbefore, ?_, ?_, fun hm => hdollar (hsub hm), fun hm => hsentinel (hsub hm)⟩
  · obtain ⟨c, w, rfl, hc⟩ := hhead
    exact ⟨c, Text.trimEnd w, Text.trimEnd_cons hc w, hc⟩
  · cases hgap : u.drop (Text.trimEnd u).length with
    | nil => exact hafter
    | cons d gap => exact Text.isBlank_of_mem_drop_trimEnd d (hgap ▸ List.mem_cons_self)

/-- **Every stretch that is wrapped stands between breaks.** -/
theorem placed_pieces {candidate : Text → Option Nat} (h : candidate ∈ candidates)
    (sentinel : Char) (s : Text) :
    Piece.Placed (InPlace sentinel) [] (pieces candidate sentinel s) := by
  refine Text.placed_cut (honest_recogniser (fun _ _ => take_ne_nil_of_candidate h) sentinel) ?_ s
  intro x u v ps hps hu
  unfold recogniser at hps
  split at hps
  · next hbefore =>
    obtain ⟨n, hn, rfl⟩ := Option.map_eq_some_iff.1 hps
    dsimp only at hu ⊢
    split
    · next hq =>
      rw [if_pos hq, Piece.sources_cons, Piece.sources_keep] at hu
      refine Piece.placed_found_cons.2 ⟨?_, Piece.placed_keep⟩
      rw [Piece.sources_keep]
      have htake : (u ++ v).take n = u :=
        (List.prefix_iff_eq_append.1 (Text.trimEnd_prefix _)).symm.trans hu
      have hdrop : (u ++ v).drop n = v := by
        have happ := List.take_append_drop n (u ++ v)
        rw [htake] at happ
        exact List.append_cancel_left happ
      rw [htake] at hq ⊢
      simp only [qualifies, Bool.and_eq_true, Bool.not_eq_true'] at hq
      obtain ⟨⟨⟨hdollar, hsentinel⟩, -⟩, -⟩ := hq
      have hnot : ∀ c, (x.getLast?.toList ++ u ++ ((u ++ v).drop n).take 1).contains c = false →
          c ∉ u := fun c hc hm => by simp [hm] at hc
      refine inPlace_trimEnd hbefore ?_ (hdrop ▸ atBreak_of_candidate h hn) (hnot _ hdollar)
        (hnot _ hsentinel)
      obtain ⟨c, w, hcw, hc⟩ := exists_head_of_candidate h hn
      cases u with
      | nil => exact absurd htake (take_ne_nil_of_candidate h hn)
      | cons d u =>
        obtain ⟨rfl, -⟩ := List.cons.inj hcw
        exact ⟨d, u, rfl, hc⟩
    · exact Piece.placed_keep
  · cases hps

end Wrap

end MarkdownPrep
