import MarkdownPrep.Proofs.Json.Braces

/-!
# The first character of a document

The first character of a document tells of what kind the value is (`opensWith_of_read?`): from there
on the outermost of the open arrays and objects stays of the kind that it was opened as, and where
none is open, the value that is read stays of its kind (`Opened`).
-/

namespace MarkdownPrep.Json

/-- A value of the kind of `t` may start with the character `c`. -/
def Tree.OpensWith (c : Char) : Tree → Prop
  | .null => c = 'n'
  | .bool b => c = if b then 't' else 'f'
  | .number _ => c = '-' ∨ c.isDigit
  | .string _ => c = '"'
  | .array _ => c = '['
  | .object _ => c = '\x7b'

/-- An array or object that is open started with the character `c`. -/
def Frame.OpensWith (c : Char) (f : Frame) : Prop := c = if f.isObject then '\x7b' else '['

/-- The value that is read in a mode started with the character `c`. In the other modes either none
is read or part of an object. -/
def Mode.OpensWith (c : Char) : Mode → Prop
  | .string false _ | .escape false _ | .hex false _ _ _ => c = '"'
  | .word _ t | .done t => t.OpensWith c
  | .number _ _ => c = '-' ∨ c.isDigit
  | _ => False

namespace Reader

/-- The outermost of the arrays and objects that are open started with the character `c`. -/
def Outermost (c : Char) (frames : List Frame) : Prop := ∀ f ∈ frames.getLast?, f.OpensWith c

/-- The document that is read started with the character `c`. -/
structure Opened (c : Char) (r : Reader) : Prop where
  outermost : Outermost c r.frames
  mode : r.frames = [] → r.mode.OpensWith c

variable {c d : Char} {r r' : Reader} {f g : Frame} {frames : List Frame}

theorem Outermost.open (h : Outermost c frames) (hne : frames ≠ []) (f : Frame) :
    Outermost c (f :: frames) := by
  obtain ⟨g, frames, rfl⟩ := List.exists_cons_of_ne_nil hne
  rwa [Outermost, List.getLast?_cons_cons]

theorem Outermost.replace (h : Outermost c (f :: frames)) (hkind : g.isObject = f.isObject) :
    Outermost c (g :: frames) := by
  cases frames with
  | nil =>
    intro e he
    obtain rfl : g = e := Option.some.inj he
    rw [Frame.OpensWith, hkind]
    exact h f rfl
  | cons => exact h

theorem Outermost.close (h : Outermost c (f :: frames)) : Outermost c frames := by
  cases frames with
  | nil => nofun
  | cons => exact h

/-- While something is open it does not matter in which mode the reader is. -/
theorem Outermost.opened (h : Outermost c frames) (hne : frames ≠ []) (m : Mode) :
    Opened c ⟨m, frames⟩ := ⟨h, fun hnil => absurd hnil hne⟩

theorem opened_complete {t : Tree} (h : Outermost c frames) (ht : frames = [] → t.OpensWith c) :
    Opened c (complete t frames) := by
  cases frames with
  | nil => exact ⟨nofun, ht⟩
  | cons f frames => cases f <;> exact ⟨h.replace rfl, nofun⟩

/-- A value that is closed has the kind that it was opened as. -/
theorem opened_close {t : Tree} (h : Outermost c (f :: frames))
    (ht : f.OpensWith c → t.OpensWith c) : Opened c (complete t frames) := by
  refine opened_complete h.close fun hnil => ht ?_
  subst hnil
  exact h f rfl

/-- **A step does not change** with which character a document started. -/
theorem step_opened (hr : Opened c r) (h : step r d = some r') : Opened c r' := by
  replace h := steps_of_step h
  induction h with
  | space => exact hr
  | openArray | openObject =>
    have hne : _ ≠ [] := hr.mode
    exact (hr.outermost.open hne _).opened (List.cons_ne_nil _ _) _
  | openString | openWord | openNumber | openKey => exact hr.outermost.opened hr.mode _
  | nextItem | nextMember => exact hr.outermost.opened (List.cons_ne_nil _ _) _
  | closeArray | closeObject => exact opened_close hr.outermost id
  | @endKey key before outer =>
    have houter : Outermost c (.entry before key :: outer) := hr.outermost.replace rfl
    exact houter.opened (List.cons_ne_nil _ _) _
  | @closeString isKey =>
    cases isKey with
    | false => exact opened_complete hr.outermost hr.mode
    | true => exact hr.outermost.opened hr.mode _
  | @escape isKey | @glyph isKey | @escapeCode isKey | @escaped isKey | @digit isKey
  | @lastDigit isKey => cases isKey <;> exact ⟨hr.outermost, hr.mode⟩
  | letter | figure => exact ⟨hr.outermost, hr.mode⟩
  | lastLetter => exact opened_complete hr.outermost hr.mode
  | afterNumber _ _ ih => exact ih (opened_complete hr.outermost hr.mode)

theorem run_opened {s : Text} (hr : Opened c r) (h : run r s = some r') : Opened c r' := by
  induction s generalizing r with
  | nil =>
    cases h
    exact hr
  | cons d s ih =>
    obtain ⟨r₁, hstep, hrun⟩ := Option.bind_eq_some_iff.1 h
    exact ih (step_opened hr hstep) hrun

theorem outermost_nil : Outermost c [] := fun _ hf => absurd hf (Option.not_mem_none _)

theorem outermost_singleton (h : f.OpensWith c) : Outermost c [f] := by
  rintro _ ⟨⟩
  exact h

theorem opensWith_of_mem_words {rest : Text} {t : Tree} (h : (c, rest, t) ∈ words) :
    t.OpensWith c := by
  simp only [words, List.mem_cons, Prod.mk.injEq, List.not_mem_nil, or_false] at h
  rcases h with ⟨rfl, -, rfl⟩ | ⟨rfl, -, rfl⟩ | ⟨rfl, -, rfl⟩ <;> rfl

/-- The first character of a value opens it. -/
theorem opened_start (hspace : ¬ isSpace c) (h : step start c = some r') : Opened c r' := by
  have hsteps : Steps ⟨.value false, []⟩ c r' := steps_of_step h
  cases hsteps with
  | space _ hc => exact absurd hc hspace
  | openArray | openObject => exact ⟨outermost_singleton rfl, nofun⟩
  | openString => exact ⟨outermost_nil, fun _ => rfl⟩
  | openWord hword => exact ⟨outermost_nil, fun _ => opensWith_of_mem_words hword⟩
  | openNumber hc => exact ⟨outermost_nil, fun _ => hc⟩

end Reader

open Reader

/-- **The first character of a document tells its kind.** -/
theorem opensWith_of_read? {c : Char} {s : Text} {t : Tree} (hspace : ¬ isSpace c)
    (h : Tree.read? (c :: s) = some t) : t.OpensWith c := by
  obtain ⟨r, hrun, hfinish⟩ := Option.bind_eq_some_iff.1 h
  have hframes := frames_eq_nil_of_finish? (run_follows steady_start hrun).steady hfinish
  obtain ⟨r₁, hstep, hrest⟩ := Option.bind_eq_some_iff.1 hrun
  have hmode := (run_opened (opened_start hspace hstep) hrest).mode hframes
  unfold finish? at hfinish
  split at hfinish
  · next hdone =>
    cases hfinish
    rwa [hdone] at hmode
  · next hnumber _ =>
    split at hfinish
    · cases hfinish
      rwa [hnumber] at hmode
    · cases hfinish
  · cases hfinish

end MarkdownPrep.Json
