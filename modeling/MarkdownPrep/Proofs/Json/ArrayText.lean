import MarkdownPrep.Proofs.Json.Opening
import MarkdownPrep.Proofs.Json.ReadBack
import MarkdownPrep.Proofs.Text.Lines

/-!
# Arrays as they are written

Inside an array or object a value is read as a document of its own is (`step_under`), up to the
first character that does not belong to it. So an array is what stands between brackets if this is
blank, or documents with commas between (`read?_array_iff`).
-/

namespace MarkdownPrep.Json

/-- True for the modes in which no value of a document is read. -/
def Mode.IsInner : Mode → Prop
  | .key _ | .colon _ | .separator => True
  | _ => False

namespace Reader

/-- The state `r` of a document that is read inside the arrays and objects `F`. -/
def under (F : List Frame) (r : Reader) : Reader :=
  match r.mode with
  | .done t => complete t F
  | m => ⟨m, r.frames ++ F⟩

/-- A state in which a document can be after some characters. -/
structure Midway (r : Reader) : Prop where
  steady : Steady r
  opened : r = start ∨ ∃ c, Opened c r

variable {r r' : Reader} {c : Char} {frames : List Frame}

theorem midway_start : Midway start := ⟨steady_start, .inl rfl⟩

theorem Midway.step (h : Midway r) (hstep : step r c = some r') : Midway r' := by
  refine ⟨(step_follows h.steady hstep).steady, ?_⟩
  rcases h.opened with rfl | ⟨d, hopened⟩
  · by_cases hspace : isSpace c
    · have hstay : Reader.step start c = some start := if_pos hspace
      exact .inl (Option.some.inj (hstep.symm.trans hstay))
    · exact .inr ⟨c, opened_start hspace hstep⟩
  · exact .inr ⟨d, step_opened hopened hstep⟩

theorem Midway.run {s : Text} (h : Midway r) (hrun : run r s = some r') : Midway r' := by
  induction s generalizing r with
  | nil =>
    cases hrun
    exact h
  | cons c s ih =>
    obtain ⟨r₁, hstep, hrun⟩ := Option.bind_eq_some_iff.1 hrun
    exact ih (h.step hstep) hrun

/-- Where nothing is open, a value is read. -/
theorem Midway.mode (h : Midway r) (hnil : r.frames = []) :
    r.mode = .value false ∨ ∃ c, r.mode.OpensWith c := by
  rcases h.opened with rfl | ⟨c, hopened⟩
  · exact .inl rfl
  · exact .inr ⟨c, hopened.mode hnil⟩

/-- Inside an object, or between values, something is open. -/
theorem Midway.ne_nil (h : Midway r) (hinner : r.mode.IsInner) : r.frames ≠ [] := by
  intro hnil
  rcases h.mode hnil with hstart | ⟨c, hc⟩
  · rwa [hstart] at hinner
  · obtain ⟨mode, frames⟩ := r
    cases mode with
    | key | colon | separator => exact hc
    | _ => exact hinner

theorem under_complete (t : Tree) (frames F : List Frame) :
    under F (complete t frames) = complete t (frames ++ F) := by
  rcases frames with _ | ⟨before | before | ⟨before, key⟩, frames⟩ <;> rfl

theorem under_finishString (isKey : Bool) (gs : List Glyph) (frames F : List Frame) :
    under F (finishString isKey gs frames) = finishString isKey gs (frames ++ F) := by
  cases isKey with
  | false => exact under_complete _ frames F
  | true => rfl

theorem map_under_ite {p : Prop} [Decidable p] (F : List Frame) (x y : Option Reader) :
    (if p then x else y).map (under F) = if p then x.map (under F) else y.map (under F) :=
  apply_ite _ p x y

theorem stepSeparator_append (f : Frame) (frames F : List Frame) (c : Char) :
    stepSeparator ⟨.separator, f :: frames ++ F⟩ c =
      (stepSeparator ⟨.separator, f :: frames⟩ c).map (under F) := by
  unfold stepSeparator
  rw [map_under_ite]
  cases f with
  | items before | members before =>
    simp only [map_under_ite, Option.map_some, Option.map_none, under_complete]
    rfl
  | entry before key => split_ifs <;> rfl

/-- After a value that is a document of its own the two readings part. -/
theorem step_complete_eq (t : Tree) (F : List Frame) (c : Char) :
    step (complete t F) c =
      ((stepSeparator ⟨.done t, []⟩ c).map (under F)).or (step (complete t F) c) := by
  by_cases hspace : isSpace c
  · rw [step_complete, stepSeparator, if_pos hspace, stepSeparator, if_pos hspace]
    rfl
  · have hnone : stepSeparator ⟨.done t, []⟩ c = none := if_neg hspace
    rw [hnone]
    rfl

theorem stepValue_append (first : Bool) (frames F : List Frame) (c : Char)
    (hfirst : frames = [] → first = false) :
    stepValue first (frames ++ F) c = (stepValue first frames c).map (under F) := by
  unfold stepValue
  simp only [map_under_ite, Option.map_some, Option.map_none]
  -- only the end of an empty array looks at what is open
  congr 10
  split_ifs with hclose
  · cases frames with
    | nil => simp [hfirst rfl] at hclose
    | cons f frames =>
      cases f with
      | items before => exact congrArg some (under_complete _ frames F).symm
      | members before | entry before key => rfl
  · rfl

/-- A number goes on inside others as on its own. Where it cannot, it is finished if it may end. -/
theorem step_number_append (part : NumberPart) (l : Literal) (frames F : List Frame) (c : Char) :
    step ⟨.number part l, frames ++ F⟩ c =
      ((step ⟨.number part l, frames⟩ c).map (under F)).or
        ((finish? ⟨.number part l, frames⟩).bind fun t => step (complete t F) c) := by
  cases hgoes : stepNumber part l c with
  | some next =>
    simp only [step, hgoes]
    rfl
  | none =>
    simp only [step, hgoes]
    by_cases hend : mayEnd part
    · rw [if_pos hend, if_pos hend]
      cases frames with
      | nil =>
        have hfinish : finish? ⟨.number part l, []⟩ = some (.number l) := if_pos hend
        rw [hfinish]
        exact (step_complete F (.number l) c).symm.trans (step_complete_eq (.number l) F c)
      | cons f frames =>
        refine Eq.trans ?_ Option.or_none.symm
        cases f <;> exact stepSeparator_append _ frames F c
    · rw [if_neg hend, if_neg hend]
      cases frames with
      | nil =>
        have hfinish : finish? ⟨.number part l, []⟩ = none := if_neg hend
        rw [hfinish]
        rfl
      | cons f frames => rfl

/-- **Inside others a document is read as it is on its own.** Where it cannot go on but may end, its
value is finished. -/
theorem step_under (h : Midway r) (F : List Frame) (c : Char) :
    step (under F r) c =
      ((step r c).map (under F)).or ((finish? r).bind fun t => step (complete t F) c) := by
  obtain ⟨mode, frames⟩ := r
  cases mode with
  | value first =>
    refine (stepValue_append first frames F c fun hnil => ?_).trans Option.or_none.symm
    rcases h.mode hnil with hmode | ⟨d, hmode⟩
    · exact Mode.value.inj hmode
    · exact hmode.elim
  | key first =>
    obtain ⟨f, frames, rfl⟩ := List.exists_cons_of_ne_nil (h.ne_nil trivial)
    refine Eq.trans ?_ Option.or_none.symm
    simp only [under, step, map_under_ite, Option.map_some, Option.map_none]
    cases f with
    | members before => simp only [List.cons_append, Option.map_some, under_complete]
    | items before | entry before key => rfl
  | colon key =>
    obtain ⟨f, frames, rfl⟩ := List.exists_cons_of_ne_nil (h.ne_nil trivial)
    refine Eq.trans ?_ Option.or_none.symm
    simp only [under, step, map_under_ite, Option.map_some, Option.map_none]
    cases f <;> rfl
  | string isKey gs =>
    refine Eq.trans ?_ Option.or_none.symm
    simp only [step, map_under_ite, Option.map_some, Option.map_none, under_finishString]
    rfl
  | escape isKey gs =>
    refine Eq.trans ?_ Option.or_none.symm
    simp only [step, map_under_ite, Option.map_some, Option.map_map]
    rfl
  | hex isKey gs due code =>
    refine Eq.trans ?_ Option.or_none.symm
    simp only [under, step, Option.map_map]
    congr 1
    funext d
    rw [Function.comp_apply]
    split <;> rfl
  | word rest t =>
    refine Eq.trans ?_ Option.or_none.symm
    rcases rest with _ | ⟨d, _ | ⟨e, rest⟩⟩
    · rfl
    · simp only [step, map_under_ite, Option.map_some, Option.map_none, under_complete]
      rfl
    · simp only [step, map_under_ite, Option.map_some, Option.map_none]
      rfl
  | number part l => exact step_number_append part l frames F c
  | separator =>
    obtain ⟨f, frames, rfl⟩ := List.exists_cons_of_ne_nil (h.ne_nil trivial)
    exact (stepSeparator_append f frames F c).trans Option.or_none.symm
  | done t =>
    obtain rfl : frames = [] := h.steady.done t rfl
    exact step_complete_eq t F c

theorem step_under_of_step (h : Midway r) (F : List Frame) (hstep : step r c = some r') :
    step (under F r) c = some (under F r') := by
  rw [step_under h, hstep]
  rfl

theorem run_under {s : Text} (h : Midway r) (F : List Frame) (hrun : run r s = some r')
    (rest : Text) : run (under F r) (s ++ rest) = run (under F r') rest := by
  induction s generalizing r with
  | nil =>
    cases hrun
    rfl
  | cons c s ih =>
    obtain ⟨r₁, hstep, hrun⟩ := Option.bind_eq_some_iff.1 hrun
    rw [List.cons_append, run_of_step (step_under_of_step h F hstep), ih (h.step hstep) hrun]

/-- A document that may end does not go on with a comma or bracket. -/
theorem step_eq_none_of_ends {t : Tree} (hframes : r.frames = []) (h : finish? r = some t)
    (hc : Ends c) : step r c = none := by
  obtain ⟨mode, frames⟩ := r
  obtain rfl : frames = [] := hframes
  cases mode with
  | number part l => rcases hc with rfl | rfl | rfl <;> cases part <;> rfl
  | done t => rcases hc with rfl | rfl | rfl <;> rfl
  | _ => cases h

/-- **A document is read as a value** inside arrays and objects, before what may follow there. -/
theorem run_document {w : Text} {t : Tree} (h : Tree.read? w = some t) (F : List Frame)
    (hc : Ends c) (rest : Text) :
    run ⟨.value false, F⟩ (w ++ c :: rest) = run (complete t F) (c :: rest) := by
  obtain ⟨r, hrun, hfinish⟩ := Option.bind_eq_some_iff.1 h
  have hmid := midway_start.run hrun
  have hnone := step_eq_none_of_ends (frames_eq_nil_of_finish? hmid.steady hfinish) hfinish hc
  have hinside : run ⟨.value false, F⟩ (w ++ c :: rest) = run (under F r) (c :: rest) :=
    run_under midway_start F hrun (c :: rest)
  rw [hinside, run, run, step_under hmid, hnone, hfinish]
  rfl

/-! ## Items -/

/-- Where the array may end at once, all else is as where it may not. -/
theorem step_value_true (F : List Frame) (hspace : ¬ isSpace c) (hc : c ≠ ']') :
    step ⟨.value true, F⟩ c = step ⟨.value false, F⟩ c := by
  simp [step, stepValue, hspace, hc]

theorem step_value_of_isSpace (first : Bool) (F : List Frame) (hspace : isSpace c) :
    step ⟨.value first, F⟩ c = some ⟨.value first, F⟩ := if_pos hspace

theorem run_document_first {w : Text} {t : Tree} (h : Tree.read? w = some t) (F : List Frame)
    (rest : Text) : run ⟨.value true, F⟩ (w ++ rest) = run ⟨.value false, F⟩ (w ++ rest) := by
  induction w with
  | nil => cases h
  | cons c w ih =>
    by_cases hspace : isSpace c
    · have hw : Tree.read? w = some t := by
        rwa [Tree.read?, start, run_of_step (step_value_of_isSpace false [] hspace)] at h
      rw [List.cons_append, run_of_step (step_value_of_isSpace true F hspace),
        run_of_step (step_value_of_isSpace false F hspace), ih hw]
    · have hbracket : c ≠ ']' := by
        rintro rfl
        cases h
      rw [List.cons_append, run, run, step_value_true F hspace hbracket]

/-- Documents with commas between are the items of an array. -/
theorem run_documents {w : Text} {ws : List Text} {ts : List Tree}
    (h : List.Forall₂ (fun w t => Tree.read? w = some t) (w :: ws) ts) (before : List Tree)
    (frames : List Frame) (rest : Text) :
    run ⟨.value false, .items before :: frames⟩ (Text.join [','] (w :: ws) ++ ']' :: rest) =
      run (complete (.array (before.reverse ++ ts)) frames) rest := by
  induction ws generalizing w ts before with
  | nil =>
    obtain _ | @⟨_, t, _, _, hw, _ | _⟩ := h
    have hone : Text.join [','] [w] = w := by simp [Text.join]
    have hstep : step (complete t (.items before :: frames)) ']' =
        some (complete (.array (t :: before).reverse) frames) := rfl
    rw [hone, run_document hw _ (.inr (.inl rfl)), run_of_step hstep, List.reverse_cons]
  | cons w' ws ih =>
    obtain _ | @⟨_, t, _, ts, hw, hws⟩ := h
    have hstep : step (complete t (.items before :: frames)) ',' =
        some ⟨.value false, .items (t :: before) :: frames⟩ := rfl
    rw [Text.join_cons_cons, List.append_assoc, List.append_assoc, List.singleton_append,
      run_document hw _ (.inl rfl), run_of_step hstep, ih hws, List.reverse_cons,
      List.append_assoc, List.singleton_append]

/-- Blanks after a document belong to it. -/
theorem step_ne_none_of_isSpace {t : Tree} (hframes : r.frames = []) (h : finish? r = some t)
    (hc : isSpace c) : step r c ≠ none := by
  obtain ⟨mode, frames⟩ := r
  obtain rfl : frames = [] := hframes
  cases mode with
  | number part l =>
    have hend : mayEnd part := (Option.ite_none_right_eq_some.1 h).1
    simp only [step]
    split
    · exact Option.some_ne_none _
    · rw [if_pos hend, complete, stepSeparator, if_pos hc]
      exact Option.some_ne_none _
  | done t =>
    rw [step, stepSeparator, if_pos hc]
    exact Option.some_ne_none _
  | _ => cases h

theorem run_done {t : Tree} {s : Text} (h : run ⟨.done t, []⟩ s = some r) :
    (∀ c ∈ s, isSpace c) ∧ r = ⟨.done t, []⟩ := by
  induction s with
  | nil =>
    cases h
    exact ⟨nofun, rfl⟩
  | cons c s ih =>
    obtain ⟨r₁, hstep, hrun⟩ := Option.bind_eq_some_iff.1 h
    by_cases hspace : isSpace c
    · have hstay : step ⟨.done t, []⟩ c = some ⟨.done t, []⟩ := if_pos hspace
      cases hstay.symm.trans hstep
      exact ⟨List.forall_mem_cons.2 ⟨hspace, (ih hrun).1⟩, (ih hrun).2⟩
    · have hnone : step ⟨.done t, []⟩ c = none := if_neg hspace
      cases hnone.symm.trans hstep

/-- What is read inside others is part of a document, or starts with one that is finished. -/
theorem run_under_cases {F : List Frame} {s : Text} (h : Midway r)
    (hrun : run (under F r) s = some r') :
    (∃ r₁, r' = under F r₁) ∨
      ∃ u c v r₁ t, s = u ++ c :: v ∧ run r u = some r₁ ∧ finish? r₁ = some t ∧ step r₁ c = none ∧
        run (complete t F) (c :: v) = some r' := by
  induction s generalizing r with
  | nil =>
    cases hrun
    exact .inl ⟨r, rfl⟩
  | cons c s ih =>
    obtain ⟨r₂, hstep, hrest⟩ := Option.bind_eq_some_iff.1 hrun
    cases hnext : step r c with
    | some r₁ =>
      cases (step_under_of_step h F hnext).symm.trans hstep
      rcases ih (h.step hnext) hrest with hpart | ⟨u, d, v, r₁, t, rfl, hu, hrest⟩
      · exact .inl hpart
      · exact .inr ⟨c :: u, d, v, r₁, t, rfl, (run_of_step hnext u).trans hu, hrest⟩
    | none =>
      rw [step_under h, hnext] at hstep
      obtain ⟨t, hfinish, hstep⟩ := Option.bind_eq_some_iff.1 hstep
      exact .inr ⟨[], c, s, r, t, rfl, rfl, hfinish, hnext, (run_of_step hstep s).trans hrest⟩

theorem finish?_under (f : Frame) (F : List Frame) (r : Reader) :
    finish? (under (f :: F) r) = none := by
  obtain ⟨mode, frames⟩ := r
  cases mode with
  | done t => cases f <;> rfl
  | number part l => cases frames <;> rfl
  | _ => rfl

/-- What is read as the items of an array is documents with commas between. -/
theorem exists_documents {before : List Tree} {s : Text} {t : Tree}
    (hrun : run ⟨.value false, [.items before]⟩ s = some r) (h : finish? r = some t) :
    ∃ w ws ts back, s = Text.join [','] (w :: ws) ++ ']' :: back ∧
      List.Forall₂ (fun w t => Tree.read? w = some t) (w :: ws) ts ∧ (∀ c ∈ back, isSpace c) ∧
      t = .array (before.reverse ++ ts) := by
  induction hn : s.length using Nat.strong_induction_on generalizing s before with
  | _ n ih =>
    subst hn
    rcases run_under_cases (F := [.items before]) midway_start hrun with
      ⟨r₁, rfl⟩ | ⟨u, c, v, r₁, t₁, rfl, hu, hfinish, hnone, hrest⟩
    · rw [finish?_under] at h
      cases h
    have hread : Tree.read? u = some t₁ := by rw [Tree.read?, hu, Option.bind_some, hfinish]
    have hframes := frames_eq_nil_of_finish? (midway_start.run hu).steady hfinish
    have hspace : ¬ isSpace c := fun hc => step_ne_none_of_isSpace hframes hfinish hc hnone
    obtain ⟨r₂, hstep, hrest⟩ := Option.bind_eq_some_iff.1 hrest
    by_cases hcomma : c = ','
    · subst hcomma
      cases hstep
      obtain ⟨w, ws, ts, back, rfl, hws, hback, rfl⟩ := ih v.length (by simp; omega) hrest rfl
      refine ⟨u, w :: ws, t₁ :: ts, back, ?_, .cons hread hws, hback, ?_⟩
      · rw [Text.join_cons_cons, List.append_assoc, List.append_assoc]
        rfl
      · rw [List.reverse_cons, List.append_assoc]
        rfl
    · by_cases hbracket : c = ']'
      · subst hbracket
        cases hstep
        obtain ⟨hback, rfl⟩ := run_done hrest
        cases h
        refine ⟨u, [], [t₁], v, ?_, .cons hread .nil, hback, ?_⟩
        · simp [Text.join]
        · rw [List.reverse_cons]
      · have hstop : step (complete t₁ [.items before]) c = none := by
          simp [complete, step, stepSeparator, hspace, hcomma, hbracket]
        cases hstop.symm.trans hstep

/-- An array ends at once, after blanks, or its items are read. -/
theorem run_first_cases {F : List Frame} {s : Text} {t : Tree}
    (hrun : run ⟨.value true, F⟩ s = some r) (h : finish? r = some t) :
    run ⟨.value false, F⟩ s = some r ∨
      ∃ front back, s = front ++ ']' :: back ∧ (∀ c ∈ front, isSpace c) ∧
        run ⟨.value true, F⟩ (']' :: back) = some r := by
  induction s with
  | nil =>
    cases hrun
    cases h
  | cons c s ih =>
    by_cases hspace : isSpace c
    · rw [run_of_step (step_value_of_isSpace true F hspace)] at hrun
      rw [run_of_step (step_value_of_isSpace false F hspace)]
      rcases ih hrun with hfalse | ⟨front, back, rfl, hfront, hback⟩
      · exact .inl hfalse
      · exact .inr ⟨c :: front, back, rfl, List.forall_mem_cons.2 ⟨hspace, hfront⟩, hback⟩
    · by_cases hbracket : c = ']'
      · exact .inr ⟨[], s, by rw [hbracket]; rfl, nofun, hbracket ▸ hrun⟩
      · rw [run, step_value_true F hspace hbracket] at hrun
        exact .inl hrun

theorem run_value_spaces {F : List Frame} {s : Text} (first : Bool) (hs : ∀ c ∈ s, isSpace c)
    (rest : Text) : run ⟨.value first, F⟩ (s ++ rest) = run ⟨.value first, F⟩ rest := by
  induction s with
  | nil => rfl
  | cons c s ih =>
    rw [List.forall_mem_cons] at hs
    rw [List.cons_append, run_of_step (step_value_of_isSpace first F hs.1), ih hs.2]

/-- Only blanks stand after the bracket that ends a document, so none do if it is the last. -/
theorem eq_of_append_bracket {s front back : Text} (h : s ++ [']'] = front ++ ']' :: back)
    (hback : ∀ c ∈ back, isSpace c) : s = front := by
  rcases List.eq_nil_or_concat back with rfl | ⟨back, c, rfl⟩
  · exact List.append_cancel_right h
  · have hlast : s ++ [']'] = (front ++ ']' :: back) ++ [c] := by simpa using h
    cases List.append_inj_right' hlast rfl
    exact absurd (hback ']' (by simp)) (by decide)

end Reader

open Reader

/-- The text `inner` is what stands between the brackets of an array of the items `ts`. -/
def IsInnerText (inner : Text) (ts : List Tree) : Prop :=
  (∀ c ∈ inner, isSpace c) ∧ ts = [] ∨
    ∃ w ws, inner = Text.join [','] (w :: ws) ∧
      List.Forall₂ (fun w t => Tree.read? w = some t) (w :: ws) ts

/-- **An array is documents with commas between**, in brackets. -/
theorem read?_array_iff {inner : Text} {t : Tree} :
    Tree.read? ('[' :: inner ++ [']']) = some t ↔ ∃ ts, t = .array ts ∧ IsInnerText inner ts := by
  have hopen : run start ('[' :: inner ++ [']']) =
      run ⟨.value true, [.items []]⟩ (inner ++ [']']) := rfl
  constructor
  · intro h
    obtain ⟨r, hrun, hfinish⟩ := Option.bind_eq_some_iff.1 h
    rw [hopen] at hrun
    rcases run_first_cases hrun hfinish with hitems | ⟨front, back, hinner, hfront, hrest⟩
    · obtain ⟨w, ws, ts, back, hinner, hws, hback, rfl⟩ := exists_documents hitems hfinish
      exact ⟨ts, rfl, .inr ⟨w, ws, eq_of_append_bracket hinner hback, hws⟩⟩
    · obtain ⟨hback, rfl⟩ := run_done (t := .array []) hrest
      cases hfinish
      exact ⟨[], rfl, .inl ⟨eq_of_append_bracket hinner hback ▸ hfront, rfl⟩⟩
  · rintro ⟨ts, rfl, ⟨hspaces, rfl⟩ | ⟨w, ws, rfl, hws⟩⟩
    · rw [Tree.read?, hopen, run_value_spaces true hspaces]
      rfl
    · have hfirst : ∃ rest, Text.join [','] (w :: ws) = w ++ rest := by
        cases ws with
        | nil => exact ⟨[], by simp [Text.join]⟩
        | cons w' ws => exact ⟨_, (Text.join_cons_cons _ w w' ws).trans (List.append_assoc ..)⟩
      obtain ⟨rest, hrest⟩ := hfirst
      obtain ⟨t, -, hw, -⟩ := List.forall₂_cons_left_iff.1 hws
      have hrun := run_documents hws [] [] []
      rw [hrest, List.append_assoc, ← run_document_first hw, ← List.append_assoc, ← hrest] at hrun
      rw [Tree.read?, hopen, hrun]
      rfl

end MarkdownPrep.Json
