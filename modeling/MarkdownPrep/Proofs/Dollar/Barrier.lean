import MarkdownPrep.Proofs.Dollar.Literal
import MarkdownPrep.Proofs.Dollar.Reading
import MarkdownPrep.Proofs.Text.CharClass
import MarkdownPrep.Proofs.Wrap.Barrier

/-!
# The dollars of a barrier

Where a stretch that begins and ends with a dollar or the sentinel has no dollar in between
(`DollarsAtEnds`) and no dollar is near on either side, the passes that look for dollars find
nothing there but the stretch itself: it is no display math (`displayMath_barrier`), it is put aside
as inline math only if it is a span of more than a bare amount (`inlineMath_barrier`), and it is
escaped only if it is a span of a single digit (`escapeLiteral_barrier`). So a barrier in a text
without other dollars is whole after the last passes (`exists_settled_barrier`).
-/

namespace MarkdownPrep

namespace Dollar

open Wrap

/-- Only the first and the last character may be a dollar. -/
def DollarsAtEnds (m : Text) : Prop := ∀ u v, m = u ++ '$' :: v → u = [] ∨ v = []

variable {S : Char} {m x z : Text} {ps : List Piece}

theorem dollarsAtEnds_of_not_mem {c d : Char} {t : Text} (h : '$' ∉ t) :
    DollarsAtEnds (c :: (t ++ [d])) := by
  intro u v hsplit
  cases u with
  | nil => exact .inl rfl
  | cons e u =>
    refine .inr ?_
    rcases v.eq_nil_or_concat with rfl | ⟨v, f, rfl⟩
    · rfl
    · have hends : t ++ [d] = (u ++ '$' :: v) ++ [f] := by simpa using (List.cons.inj hsplit).2
      rw [(List.append_inj' hends rfl).1] at h
      simp at h

/-- Two dollars of a text are the ends of the stretch that has all its dollars. -/
theorem DollarsAtEnds.eq_of_split (hm : DollarsAtEnds m) (hx : '$' ∉ x) (hz : '$' ∉ z)
    {u body v : Text} (h : x ++ (m ++ z) = u ++ (span body ++ v)) :
    u = x ∧ m = span body ∧ v = z := by
  obtain ⟨k, rfl, hk⟩ : ∃ k, u = x ++ k ∧ m ++ z = k ++ (span body ++ v) := by
    rcases List.append_eq_append_iff.1 h with h | ⟨k, rfl, hk⟩
    · exact h
    · cases k with
      | nil => exact ⟨[], by simp, hk.symm⟩
      | cons c k => exact absurd (by simp [← (List.cons.inj hk).1]) hx
  obtain ⟨j, rfl, rfl⟩ : ∃ j, m = k ++ span body ++ j ∧ v = j ++ z := by
    rw [← List.append_assoc] at hk
    rcases List.append_eq_append_iff.1 hk with ⟨j, hj, rfl⟩ | h
    · have hnil : j = [] := by
        by_contra hne
        have hlast := congrArg List.getLast? hj
        rw [getLast?_append_span, List.getLast?_append_of_ne_nil _ hne] at hlast
        exact hz (List.mem_append_left v (List.mem_of_getLast? hlast.symm))
      subst hnil
      exact ⟨[], by simpa using hj.symm, rfl⟩
    · exact h
  have hfirst := hm k (body ++ '$' :: j) (by simp [span])
  have hlast := hm (k ++ '$' :: body) j (by simp [span])
  obtain rfl : k = [] := by simpa using hfirst
  obtain rfl : j = [] := by simpa using hlast
  simp

/-- A span with one character is split before it or after it. -/
theorem of_span_singleton_eq {d : Char} {t t' : Text} (h : span [d] = t ++ t') (ht : t ≠ [])
    (ht' : t' ≠ []) : (t = ['$'] ∧ t' = [d, '$']) ∨ (t = ['$', d] ∧ t' = ['$']) := by
  rcases t with _ | ⟨a, _ | ⟨b, _ | ⟨c, t⟩⟩⟩
  · exact absurd rfl ht
  · cases h
    exact .inl ⟨rfl, rfl⟩
  · cases h
    exact .inr ⟨rfl, rfl⟩
  · cases t with
    | nil =>
      cases h
      exact absurd rfl ht'
    | cons e t => cases h

/-! ## Math -/

/-- A text without doubled dollars has no display math. -/
theorem displayMath_eq_keep {s : Text} (h : ∀ u v, s ≠ u ++ (span [] ++ v)) :
    Verbatim.displayMath s = Piece.keep s := by
  refine Text.cut_eq_keep fun y c w hs => Verbatim.displayRecogniser_eq_none ?_
  by_contra hne
  simp only [ne_eq, not_or, not_not] at hne
  obtain ⟨rfl, hw⟩ := hne
  obtain ⟨w, rfl⟩ := List.head?_eq_some_iff.1 hw
  exact h y w hs

theorem displayMath_barrier (hm : DollarsAtEnds m) (hne : m ≠ span []) (hx : '$' ∉ x)
    (hz : '$' ∉ z) : Verbatim.displayMath (x ++ (m ++ z)) = Piece.keep (x ++ (m ++ z)) :=
  displayMath_eq_keep fun _ _ h => hne (hm.eq_of_split hx hz h).2.1

/-- A span of a bare amount is not put aside, nor is anything else where there are no other dollars. -/
theorem inlineMath_barrier (hm : DollarsAtEnds m) (hx : '$' ∉ x) (hz : '$' ∉ z)
    (hbare : ∀ body, m = span body → '\n' ∉ body → Amount.isBare (Text.trim body)) :
    Verbatim.inlineMath (x ++ (m ++ z)) = Piece.keep (x ++ (m ++ z)) := by
  have hnone : Piece.Placed (fun _ _ _ => False) [] (Verbatim.inlineMath (x ++ (m ++ z))) := by
    intro qs t rs hsplit
    obtain ⟨⟨body, rfl, hpairs⟩, hmath⟩ := Piece.placed_retain (placed_pairs _) qs t rs hsplit
    have hsources := congrArg Piece.sources hsplit
    rw [Verbatim.sources_inlineMath, Piece.sources_append, Piece.sources_cons] at hsources
    have hbody := hbare body (hm.eq_of_split hx hz hsources).2.1 hpairs.oneLine
    rw [interior_span, hbody] at hmath
    cases hmath
  have hnil : Piece.founds (Verbatim.inlineMath (x ++ (m ++ z))) = [] :=
    List.eq_nil_iff_forall_not_mem.2 (Piece.forall_founds_of_placed hnone)
  rw [Piece.eq_keep_of_founds_nil hnil, Verbatim.sources_inlineMath]

/-! ## Literal dollars -/

theorem filter_escaped_span (body : Text) :
    (escaped (span body)).filter (· ≠ '\\') = (span body).filter (· ≠ '\\') := by
  rw [escaped_span]
  simp [span]

/-- Escaping puts nothing in but backslashes. -/
theorem filter_mapFound_escaped (h : ∀ t ∈ Piece.founds ps, ∃ body, t = span body) :
    (Piece.mapFound escaped ps).filter (· ≠ '\\') = (Piece.sources ps).filter (· ≠ '\\') := by
  induction ps with
  | nil => rfl
  | cons p ps ih =>
    cases p with
    | kept c =>
      rw [Piece.mapFound_kept_cons, Piece.sources_cons, Piece.source, List.singleton_append,
        List.filter_cons, List.filter_cons, ih h]
    | found t =>
      rw [Piece.founds_found_cons, List.forall_mem_cons] at h
      obtain ⟨⟨body, rfl⟩, h⟩ := h
      rw [Piece.mapFound_found_cons, Piece.sources_cons, Piece.source, List.filter_append,
        List.filter_append, ih h, filter_escaped_span]

/-- No backslash that was put in ends a text. -/
theorem getLast?_mapFound_escaped (h : '\\' ∉ Piece.sources ps) :
    (Piece.mapFound escaped ps).getLast? ≠ some '\\' := by
  rcases ps.eq_nil_or_concat with rfl | ⟨ps, c | t, rfl⟩
  · simp
  · intro hlast
    have hc : c = '\\' := by simpa using hlast
    exact h (by simp [hc, Piece.source])
  · simp only [List.concat_eq_append, Piece.mapFound_append, Piece.mapFound_found_cons,
      Piece.mapFound_nil, List.append_nil, getLast?_append_escaped]
    decide

/-- A span of a single digit. -/
def IsDigitSpan (t : Text) : Prop := ∃ d, isDecimalDigit d ∧ t = span [d]

/-- **No span of a single digit reaches over an end of a barrier.** -/
theorem exists_parts_of_digitSpans (hm : Barrier S m) (hS : isPrivateUse S) (hx : AwayFromEnd x)
    (hz : AwayFromStart z) (h : Piece.Placed (fun _ t _ => IsDigitSpan t) [] ps)
    (hps : Piece.sources ps = x ++ (m ++ z)) :
    ∃ qs ms rs, ps = qs ++ (ms ++ rs) ∧ Piece.sources qs = x ∧ Piece.sources ms = m ∧
      Piece.sources rs = z := by
  obtain ⟨a, ha, hfirst⟩ := hm.head
  obtain ⟨b, hb, hlast⟩ := hm.last
  have hdigit : ∀ d, isDecimalDigit d → ¬ (d = '$' ∨ d = S) := by
    rintro d hd (rfl | rfl)
    · exact absurd hd (by decide)
    · rw [not_isDecimalDigit_of_isPrivateUse hS] at hd
      cases hd
  rcases Piece.exists_append_or_found hps with ⟨qs, ps', rfl, rfl, hps'⟩ |
    ⟨qs, t, t', rs, rfl, rfl, hu, ht, ht'⟩
  · rcases Piece.exists_append_or_found hps' with ⟨ms, rs, rfl, rfl, rfl⟩ |
      ⟨ms, t, t', rs, rfl, rfl, rfl, ht, ht'⟩
    · exact ⟨qs, ms, rs, rfl, rfl, rfl, rfl⟩
    · obtain ⟨d, hd, hspan⟩ := h (qs ++ ms) (t ++ t') rs (by simp)
      rcases of_span_singleton_eq hspan.symm ht ht' with ⟨rfl, rfl⟩ | ⟨rfl, rfl⟩
      · rcases hz [d] (Piece.sources rs) rfl with hlen | hblank
        · exact absurd hlen (by simp)
        · simp [not_isBlank_of_isDecimalDigit hd] at hblank
      · obtain rfl : d = b := by simpa using hb
        exact absurd hlast (hdigit d hd)
  · obtain ⟨d, hd, hspan⟩ := h qs (t ++ t') rs rfl
    rcases of_span_singleton_eq hspan.symm ht ht' with ⟨rfl, rfl⟩ | ⟨rfl, rfl⟩
    · obtain ⟨m, rfl⟩ := List.head?_eq_some_iff.1 ha
      obtain rfl : a = d := (List.cons.inj hu).1
      exact absurd hfirst (hdigit a hd)
    · rcases hx (Piece.sources qs) [d] rfl with hlen | hblank
      · exact absurd hlen (by simp)
      · simp [not_isBlank_of_isDecimalDigit hd] at hblank

theorem eq_nil_of_sources_eq_nil (h : Piece.Placed (fun _ t _ => IsDigitSpan t) x ps)
    (hps : Piece.sources ps = []) : ps = [] := by
  rcases ps with _ | ⟨c | t, ps⟩
  · rfl
  · cases hps
  · obtain ⟨⟨d, -, rfl⟩, -⟩ := Piece.placed_found_cons.1 h
    cases hps

/-- What is escaped of a stretch with dollars at its ends only is the whole stretch. -/
theorem mapFound_escaped_of_dollarsAtEnds (hm : DollarsAtEnds (Piece.sources ps))
    (h : Piece.Placed (fun _ t _ => IsDigitSpan t) x ps) :
    Piece.mapFound escaped ps = Piece.sources ps ∨ ∃ d, isDecimalDigit d ∧
      Piece.sources ps = span [d] ∧ Piece.mapFound escaped ps = escaped (span [d]) := by
  by_cases hfound : ∃ as t bs, ps = as ++ .found t :: bs
  · obtain ⟨as, t, bs, rfl⟩ := hfound
    obtain ⟨has, ht, hbs⟩ := (Piece.placed_append.1 h).imp_right Piece.placed_found_cons.1
    obtain ⟨d, hd, rfl⟩ := ht
    have hsources : Piece.sources (as ++ .found (span [d]) :: bs) =
        Piece.sources as ++ (span [d] ++ Piece.sources bs) := by simp [Piece.source]
    rw [hsources] at hm
    have hfirst := hm (Piece.sources as) (d :: '$' :: Piece.sources bs) rfl
    have hlast := hm (Piece.sources as ++ ['$', d]) (Piece.sources bs) (by simp [span])
    have hasnil : as = [] := eq_nil_of_sources_eq_nil has (by simpa using hfirst)
    have hbsnil : bs = [] := eq_nil_of_sources_eq_nil hbs (by simpa using hlast)
    subst hasnil hbsnil
    exact .inr ⟨d, hd, by simp [Piece.source], by simp⟩
  · have hnone : Piece.Placed (fun _ _ _ => False) [] ps := fun as t bs hps =>
      hfound ⟨as, t, bs, hps⟩
    exact .inl (Piece.mapFound_of_founds_nil
      (List.eq_nil_iff_forall_not_mem.2 (Piece.forall_founds_of_placed hnone)))

/-- The spans that are escaped are those of a single digit without the sentinel. -/
theorem placed_literal (S : Char) (s : Text) :
    Piece.Placed (fun _ t _ => IsDigitSpan t) [] (Piece.retain (isLiteral S) (spans s)) := by
  refine (Piece.placed_retain (placed_pairs s)).mono ?_
  rintro x t y ⟨⟨body, rfl, -⟩, hliteral⟩
  rw [isLiteral, interior_span, readsAsMath_eq, Bool.and_eq_true, Bool.not_not] at hliteral
  rcases body with _ | ⟨d, _ | ⟨e, body⟩⟩
  · cases hliteral.2
  · exact ⟨d, hliteral.2, rfl⟩
  · cases hliteral.2

/-- **A barrier is escaped as a whole or stays**: what is escaped before it and after it gets
backslashes only, and none of them stands right before the barrier. -/
theorem escapeLiteral_barrier (hm : Barrier S m) (hm' : DollarsAtEnds m) (hS : isPrivateUse S)
    (hx : AwayFromEnd x) (hz : AwayFromStart z) (hbackslash : '\\' ∉ x) :
    ∃ x' m' z', escapeLiteral S (x ++ (m ++ z)) = x' ++ (m' ++ z') ∧
      x'.filter (· ≠ '\\') = x.filter (· ≠ '\\') ∧ z'.filter (· ≠ '\\') = z.filter (· ≠ '\\') ∧
      x'.getLast? ≠ some '\\' ∧ (m' = m ∨
        ∃ d, isDecimalDigit d ∧ m = span [d] ∧ m' = escaped (span [d])) := by
  have hplaced := placed_literal S (x ++ (m ++ z))
  have hout : escapeLiteral S (x ++ (m ++ z)) =
      Piece.mapFound escaped (Piece.retain (isLiteral S) (spans (x ++ (m ++ z)))) := by
    rw [escapeLiteral_eq, Piece.mapFound_retain]
    rfl
  have hsources : Piece.sources (Piece.retain (isLiteral S) (spans (x ++ (m ++ z)))) =
      x ++ (m ++ z) := by simp
  generalize Piece.retain (isLiteral S) (spans (x ++ (m ++ z))) = ps at hplaced hout hsources
  obtain ⟨qs, ms, rs, rfl, rfl, rfl, rfl⟩ :=
    exists_parts_of_digitSpans hm hS hx hz hplaced hsources
  obtain ⟨hqs, hms, hrs⟩ := (Piece.placed_append.1 hplaced).imp_right Piece.placed_append.1
  have hspans : ∀ {y : Text} {ps : List Piece},
      Piece.Placed (fun _ t _ => IsDigitSpan t) y ps →
      ∀ t ∈ Piece.founds ps, ∃ body, t = span body := fun h t ht => by
    obtain ⟨d, -, rfl⟩ := Piece.forall_founds_of_placed h t ht
    exact ⟨[d], rfl⟩
  refine ⟨_, Piece.mapFound escaped ms, _, by rw [hout]; simp, filter_mapFound_escaped (hspans hqs),
    filter_mapFound_escaped (hspans hrs), getLast?_mapFound_escaped hbackslash, ?_⟩
  exact mapFound_escaped_of_dollarsAtEnds hm' hms

end Dollar

namespace Text

/-- A text without its dollars and backslashes. -/
def unmarked (s : Text) : Text := s.filter fun c => c ≠ '$' && c ≠ '\\'

theorem unmarked_append (s t : Text) : unmarked (s ++ t) = unmarked s ++ unmarked t :=
  List.filter_append s t

theorem unmarked_eq_self {s : Text} (hdollar : '$' ∉ s) (hbackslash : '\\' ∉ s) :
    unmarked s = s := by
  refine List.filter_eq_self.2 fun c hc => ?_
  simp [ne_of_mem_of_not_mem hc hdollar, ne_of_mem_of_not_mem hc hbackslash]

/-- Dollars that were put in, and backslashes after that, are all that is unmarked. -/
theorem unmarked_eq_of_filter {s t u : Text}
    (hs : s.filter (· ≠ '\\') = t.filter (· ≠ '\\')) (ht : t.filter (· ≠ '$') = u)
    (hu : '\\' ∉ u) : unmarked s = u :=
  calc unmarked s = (s.filter (· ≠ '\\')).filter (· ≠ '$') := List.filter_filter.symm
    _ = (t.filter (· ≠ '$')).filter (· ≠ '\\') := by rw [hs, List.filter_comm]
    _ = u := by
      rw [ht]
      exact List.filter_eq_self.2 fun c hc => decide_eq_true (ne_of_mem_of_not_mem hc hu)

theorem mem_unmarked_of_isPrivateUse {s : Text} {c : Char} (h : c ∈ s) (hc : isPrivateUse c) :
    c ∈ unmarked s := by
  refine List.mem_filter.2 ⟨h, ?_⟩
  have hmarks : isPrivateUse '$' = false ∧ isPrivateUse '\\' = false := by decide
  rw [Bool.and_eq_true, decide_eq_true_eq, decide_eq_true_eq]
  constructor <;> rintro rfl <;> simp [hmarks] at hc

end Text

namespace Dollar

open Wrap

variable {S : Char} {m x z : Text}

/-- **Wrapping and then escaping leave a barrier whole**: it comes through or is escaped as a span
of a single digit, and before it and after it nothing but dollars and backslashes comes in. -/
theorem exists_settled_barrier (hm : Barrier S m) (hm' : DollarsAtEnds m) (hS : isPrivateUse S)
    (hx : '$' ∉ x) (hx' : '\\' ∉ x) (hz : '$' ∉ z) (hz' : '\\' ∉ z) :
    ∃ x' m' z', escapeLiteral S (wrapBareMath S (x ++ (m ++ z))) = x' ++ (m' ++ z') ∧
      Text.unmarked x' = x ∧ Text.unmarked z' = z ∧ x'.getLast? ≠ some '\\' ∧ (m' = m ∨
        ∃ d, isDecimalDigit d ∧ m = span [d] ∧ m' = escaped (span [d])) := by
  obtain ⟨x₁, z₁, hwrap, hx₁, hz₁, hxaway, hzaway⟩ :=
    wrapBareMath_barrier (not_isBlank_of_isPrivateUse hS) hm hx hz
  have hbackslash : '\\' ∉ x₁ := fun hmem => hx' <| by
    rw [← hx₁]
    exact List.mem_filter.2 ⟨hmem, by decide⟩
  obtain ⟨x₂, m', z₂, hescape, hx₂, hz₂, hend, hm'⟩ :=
    escapeLiteral_barrier hm hm' hS hxaway hzaway hbackslash
  exact ⟨x₂, m', z₂, by rw [hwrap, hescape], Text.unmarked_eq_of_filter hx₂ hx₁ hx',
    Text.unmarked_eq_of_filter hz₂ hz₁ hz', hend, hm'⟩

end Dollar

end MarkdownPrep
