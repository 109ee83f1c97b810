import MarkdownPrep.Streaming.Watcher

/-!
# A watcher and its history

A watcher remembers four things and updates them on different conditions. They stand for the whole
history since it was new or reset: `Remembers h s` says that the sighting `s` is what is remembered
of the showings `h`, and showing one more text keeps that (`Remembers.next`). So every verdict can be
read off the history (`watch_eq_history`): from the last change in it, the change before that, and
the first showing.
-/

namespace MarkdownPrep.Streaming

/-- A text that was shown, with the time. -/
structure Showing where
  text : Text
  time : Nat
  deriving DecidableEq, Repr

/-- What can happen to a watcher. -/
inductive Event where
  | shown (s : Showing)
  | reset
  deriving DecidableEq, Repr

/-- The watcher after an event. -/
def Watcher.after (w : Watcher) : Event → Watcher
  | .shown s => (w.watch s.text s.time).2
  | .reset => w.reset

/-- The watcher after a run of events. -/
def Watcher.run (w : Watcher) (events : List Event) : Watcher := events.foldl Watcher.after w

/-- The history after one more event. -/
def Event.record (h : List Showing) : Event → List Showing
  | .shown s => h ++ [s]
  | .reset => []

/-- What was shown in a run of events since the last reset. -/
def sinceReset (events : List Event) : List Showing := events.foldl Event.record []

/-! ## Changes -/

/-- The showing `i` is the first one, or its text differs from the one before. -/
def IsChange (h : List Showing) (i : Nat) : Prop :=
  i < h.length ∧ (i = 0 ∨ h[i]?.map Showing.text ≠ h[i - 1]?.map Showing.text)

/-- The last change before the showing `n`. -/
structure LastChange (h : List Showing) (n c : Nat) : Prop where
  lt : c < n
  isChange : IsChange h c
  last : ∀ j, c < j → j < n → ¬ IsChange h j

theorem LastChange.unique {h : List Showing} {n c c' : Nat} (hc : LastChange h n c)
    (hc' : LastChange h n c') : c = c' := by
  rcases Nat.lt_trichotomy c c' with hlt | heq | hlt
  · exact absurd hc'.isChange (hc.last c' hlt hc'.lt)
  · exact heq
  · exact absurd hc.isChange (hc'.last c hlt hc.lt)

section
variable {h : List Showing} {s : Showing}

theorem isChange_append {i : Nat} (hi : i < h.length) : IsChange (h ++ [s]) i ↔ IsChange h i := by
  have hi' : i < (h ++ [s]).length := by simp; omega
  unfold IsChange
  rw [List.getElem?_append_left hi, List.getElem?_append_left (show i - 1 < h.length by omega)]
  simp only [hi, hi', true_and]

theorem lastChange_append {n c : Nat} (hn : n ≤ h.length) :
    LastChange (h ++ [s]) n c ↔ LastChange h n c := by
  constructor
  · intro hc
    have hlt := hc.lt
    refine ⟨hlt, (isChange_append (by omega)).1 hc.isChange, ?_⟩
    intro j hcj hjn
    rw [← isChange_append (s := s) (by omega)]
    exact hc.last j hcj hjn
  · intro hc
    have hlt := hc.lt
    refine ⟨hlt, (isChange_append (by omega)).2 hc.isChange, ?_⟩
    intro j hcj hjn
    rw [isChange_append (by omega)]
    exact hc.last j hcj hjn

/-- The newest showing is a change if its text is not the last one. -/
theorem isChange_length : IsChange (h ++ [s]) h.length ↔
    h.getLast?.map Showing.text ≠ some s.text := by
  unfold IsChange
  rw [List.getElem?_concat_length]
  rcases h.eq_nil_or_concat with rfl | ⟨h, r, rfl⟩
  · simp
  · rw [List.concat_eq_append, List.getElem?_append_left (by simp)]
    simp [eq_comm]

/-- The last change up to the newest showing is that showing, or the one there was. -/
theorem lastChange_succ {c : Nat} : LastChange (h ++ [s]) (h.length + 1) c ↔
    (c = h.length ∧ IsChange (h ++ [s]) h.length) ∨
      (LastChange h h.length c ∧ ¬ IsChange (h ++ [s]) h.length) := by
  constructor
  · intro hc
    have hlt := hc.lt
    by_cases heq : c = h.length
    · exact .inl ⟨heq, heq ▸ hc.isChange⟩
    · refine .inr ⟨(lastChange_append (s := s) (Nat.le_refl _)).1 ⟨by omega, hc.isChange, ?_⟩,
        hc.last _ (by omega) (by omega)⟩
      intro j hcj hj
      exact hc.last j hcj (by omega)
  · rintro (⟨rfl, hn⟩ | ⟨hc, hn⟩)
    · exact ⟨Nat.lt_succ_self _, hn, fun j hj hj' => by omega⟩
    · have hc := (lastChange_append (s := s) (Nat.le_refl _)).2 hc
      have hlt := hc.lt
      refine ⟨by omega, hc.isChange, ?_⟩
      intro j hcj hj
      by_cases heq : j = h.length
      · exact heq ▸ hn
      · exact hc.last j hcj (by omega)

end

/-! ## What is remembered -/

/-- The time of the showing `i`. -/
def timeAt (h : List Showing) (i : Nat) : Option Nat := h[i]?.map Showing.time

theorem timeAt_append {h : List Showing} {s : Showing} {i : Nat} (hi : i < h.length) :
    timeAt (h ++ [s]) i = timeAt h i := by
  unfold timeAt
  rw [List.getElem?_append_left hi]

theorem timeAt_length {h : List Showing} {s : Showing} : timeAt (h ++ [s]) h.length = s.time := by
  unfold timeAt
  rw [List.getElem?_concat_length]
  rfl

/-- The sighting `s` is what is remembered of the history `h`, whose last change is `c`. -/
structure Remembers (h : List Showing) (s : Sighting) (c : Nat) : Prop where
  text : h.getLast?.map Showing.text = some s.text
  first : timeAt h 0 = some s.first
  last : LastChange h h.length c
  changed : timeAt h c = some s.changed
  before : ∀ t, s.changedBefore = some t → ∃ c', LastChange h c c' ∧ timeAt h c' = some t
  none_before : s.changedBefore = none → ∀ c', ¬ LastChange h c c'

theorem remembers_first (s : Showing) : Remembers [s] (Sighting.next none s.text s.time) 0 where
  text := rfl
  first := rfl
  last := ⟨Nat.one_pos, ⟨Nat.one_pos, .inl rfl⟩, fun j hj hj' => by simp at hj'; omega⟩
  changed := rfl
  before := by intro t ht; cases ht
  none_before := fun _ c' hc' => by have := hc'.lt; omega

/-- **One more showing** is remembered with the others. -/
theorem Remembers.next {h : List Showing} {seen : Sighting} {c : Nat} (hr : Remembers h seen c)
    (s : Showing) : Remembers (h ++ [s]) (Sighting.next (some seen) s.text s.time)
      (if seen.text = s.text then c else h.length) := by
  have hc := hr.last.lt
  have hnew : IsChange (h ++ [s]) h.length ↔ seen.text ≠ s.text := by
    rw [isChange_length, hr.text, ne_eq, Option.some.injEq]
  have hfirst : timeAt (h ++ [s]) 0 = some seen.first := by
    rw [timeAt_append (by omega), hr.first]
  rw [Sighting.next]
  by_cases heq : seen.text = s.text
  · rw [if_pos heq, if_pos heq]
    refine ⟨by simp [heq], hfirst, ?_, by rw [timeAt_append hc, hr.changed], ?_, ?_⟩
    · rw [List.length_append]
      exact lastChange_succ.2 (.inr ⟨hr.last, fun h => hnew.1 h heq⟩)
    · intro t ht
      obtain ⟨c', hc', htime⟩ := hr.before t ht
      have hlt := hc'.lt
      exact ⟨c', (lastChange_append (by omega)).2 hc', by rw [timeAt_append (by omega), htime]⟩
    · intro ht c'
      rw [lastChange_append (by omega)]
      exact hr.none_before ht c'
  · rw [if_neg heq, if_neg heq]
    refine ⟨by simp, hfirst, ?_, timeAt_length, ?_, by intro ht; cases ht⟩
    · rw [List.length_append]
      exact lastChange_succ.2 (.inl ⟨rfl, hnew.2 heq⟩)
    · intro t ht
      cases ht
      exact ⟨c, (lastChange_append (Nat.le_refl _)).2 hr.last, by rw [timeAt_append hc, hr.changed]⟩

/-- What a watcher remembers of a history. -/
def RemembersAll (h : List Showing) : Option Sighting → Prop
  | none => h = []
  | some s => ∃ c, Remembers h s c

theorem RemembersAll.next {h : List Showing} {seen : Option Sighting} (hr : RemembersAll h seen)
    (s : Showing) : RemembersAll (h ++ [s]) (some (Sighting.next seen s.text s.time)) := by
  cases seen with
  | none =>
    obtain rfl : h = [] := hr
    exact ⟨0, remembers_first s⟩
  | some seen =>
    obtain ⟨c, hr⟩ := hr
    exact ⟨_, hr.next s⟩

/-- **A watcher remembers what it was shown since the last reset**, and keeps its waits. -/
theorem run_remembers (waits : Waits) (events : List Event) :
    (({ waits := waits } : Watcher).run events).waits = waits ∧
      RemembersAll (sinceReset events) (({ waits := waits } : Watcher).run events).seen := by
  have key : ∀ (w : Watcher) (h : List Showing), w.waits = waits → RemembersAll h w.seen →
      (w.run events).waits = waits ∧ RemembersAll (events.foldl Event.record h) (w.run events).seen := by
    induction events with
    | nil => exact fun w h hw hr => ⟨hw, hr⟩
    | cons e events ih =>
      intro w h hw hr
      refine ih (w.after e) (e.record h) ?_ ?_
      · cases e <;> exact hw
      · cases e with
        | shown s => exact hr.next s
        | reset => exact rfl
  exact key _ _ rfl rfl

/-! ## Verdicts by history -/

/-- The showing `n` of a history is taken as final: its text does not look unfinished, or the last
change up to it is long past, or the first showing is. -/
def IsFinal (waits : Waits) (h : List Showing) (n : Nat) : Prop :=
  ∃ s, h[n]? = some s ∧ (isUnfinished s.text = false ∨
    (∃ c t, LastChange h (n + 1) c ∧ timeAt h c = some t ∧ waits.stable ≤ s.time - t) ∨
    ∃ t, timeAt h 0 = some t ∧ waits.longest ≤ s.time - t)

/-- The showing `n` of a history is a change, and so was one shortly before. -/
def IsRapid (waits : Waits) (h : List Showing) (n : Nat) : Prop :=
  ∃ s, h[n]? = some s ∧ IsChange h n ∧
    ∃ c t, LastChange h n c ∧ timeAt h c = some t ∧ s.time - t ≤ waits.rapid

section
variable {h : List Showing} {s : Showing} {seen : Option Sighting} {waits : Waits}

theorem isFinal_iff (hr : RemembersAll h seen) : IsFinal waits (h ++ [s]) h.length ↔
    isUnfinished s.text = false ∨ waits.stable ≤ s.time - (Sighting.next seen s.text s.time).changed ∨
      waits.longest ≤ s.time - (Sighting.next seen s.text s.time).first := by
  obtain ⟨c, hr⟩ := hr.next s
  have hlast : LastChange (h ++ [s]) (h.length + 1) c := by simpa using hr.last
  unfold IsFinal
  rw [List.getElem?_concat_length]
  constructor
  · rintro ⟨_, ⟨⟩, hfin | ⟨c', t, hc', ht, hle⟩ | ⟨t, ht, hle⟩⟩
    · exact .inl hfin
    · obtain rfl := hc'.unique hlast
      cases ht.symm.trans hr.changed
      exact .inr (.inl hle)
    · cases ht.symm.trans hr.first
      exact .inr (.inr hle)
  · intro hfin
    refine ⟨s, rfl, ?_⟩
    rcases hfin with hfin | hle | hle
    · exact .inl hfin
    · exact .inr (.inl ⟨c, _, hlast, hr.changed, hle⟩)
    · exact .inr (.inr ⟨_, hr.first, hle⟩)

theorem isChange_iff (hr : RemembersAll h seen) :
    IsChange (h ++ [s]) h.length ↔ seen.map (·.text) ≠ some s.text := by
  rw [isChange_length]
  cases seen with
  | none =>
    obtain rfl : h = [] := hr
    rfl
  | some seen =>
    obtain ⟨c, hr⟩ := hr
    rw [hr.text]
    rfl

theorem isRapid_iff (hr : RemembersAll h seen) : IsRapid waits (h ++ [s]) h.length ↔
    seen.map (·.text) ≠ some s.text ∧ (Sighting.next seen s.text s.time).changedBefore.any
      (s.time - · ≤ waits.rapid) := by
  unfold IsRapid
  rw [List.getElem?_concat_length, isChange_iff hr]
  -- the change before a new one is the last change there was
  by_cases hnew : seen.map (·.text) = some s.text
  · simp [hnew]
  cases seen with
  | none =>
    obtain rfl : h = [] := hr
    constructor
    · rintro ⟨_, -, -, c, t, hc, -⟩
      exact absurd hc.lt (Nat.not_lt_zero c)
    · rintro ⟨-, hany⟩
      cases hany
  | some seen =>
    obtain ⟨c, hr⟩ := hr
    have hne : seen.text ≠ s.text := fun heq => hnew (congrArg some heq)
    have hc : LastChange (h ++ [s]) h.length c := (lastChange_append (Nat.le_refl _)).2 hr.last
    have htime : timeAt (h ++ [s]) c = some seen.changed := by
      rw [timeAt_append hr.last.lt, hr.changed]
    rw [Sighting.next, if_neg hne]
    constructor
    · rintro ⟨_, ⟨⟩, -, c', t, hc', ht, hle⟩
      obtain rfl := hc'.unique hc
      cases ht.symm.trans htime
      exact ⟨hnew, by simpa using hle⟩
    · rintro ⟨-, hany⟩
      exact ⟨s, rfl, hnew, c, _, hc, htime, by simpa using hany⟩

end

/-- **What a watcher tells is what its history says**, whatever it was shown before and however
often it was reset. A reset leaves it as it was when it was new. -/
theorem watch_eq_history (waits : Waits) (events : List Event) (text : Text) (now : Nat) :
    let w := ({ waits := waits } : Watcher).run events
    let h := sinceReset events ++ [⟨text, now⟩]
    let n := (sinceReset events).length
    ((w.watch text now).1 = .final ↔ IsFinal waits h n) ∧
      ((w.watch text now).1 = .rapid ↔ ¬ IsFinal waits h n ∧ IsRapid waits h n) ∧
      ((w.watch text now).1 = .waiting ↔ ¬ IsFinal waits h n ∧ ¬ IsRapid waits h n) ∧
      w.reset = { waits := waits } := by
  intro w h n
  obtain ⟨hw, hr⟩ := run_remembers waits events
  have hreset : w.reset = { waits := waits } := congrArg (fun waits => ({ waits } : Watcher)) hw
  have htext : (Sighting.next w.seen text now).text = text := by
    unfold Sighting.next
    split
    · rfl
    · split
      · assumption
      · rfl
  have hverdict : (w.watch text now).1 = (Sighting.next w.seen text now).verdict waits
      (w.seen.map (·.text) ≠ some text) now := by
    rw [Watcher.watch, hw]
  rw [hverdict, Sighting.verdict, htext]
  have hfinal : IsFinal waits h n ↔ _ := isFinal_iff hr
  have hrapid : IsRapid waits h n ↔ _ := isRapid_iff hr
  by_cases hfin : IsFinal waits h n
  · have hcond := hfinal.1 hfin
    rw [if_pos (by simpa [or_assoc] using hcond)]
    simp [hfin, hreset]
  · have hcond := mt hfinal.2 hfin
    rw [if_neg (by simpa [not_or, and_assoc] using hcond)]
    by_cases hrap : IsRapid waits h n
    · have hcond := hrapid.1 hrap
      rw [if_pos (by simpa using hcond)]
      simp [hfin, hrap, hreset]
    · have hcond := mt hrapid.2 hrap
      rw [if_neg (by simpa using hcond)]
      simp [hfin, hrap, hreset]

end MarkdownPrep.Streaming
