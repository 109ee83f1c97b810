import Mathlib.Data.List.TakeWhile
import MarkdownPrep.Document

/-!
# The code blocks of a document

A document is a row of stretches: fenced code blocks, indented ones, and single events between them
(`Stretch`). A stretch gives its block, if it is a fenced one, and leaves none open
(`blocksFrom_events`). Reading goes on from the block that is open (`openAfter`), so documents may
be read one after the other exactly where the first leaves none open (`codeBlocks_of_stretches`).
-/

namespace MarkdownPrep

/-- The first run of characters in a text that are not white space. -/
structure Text.IsFirstWord (s w : Text) : Prop where
  ne_nil : w ≠ []
  visible : ∀ c ∈ w, ¬ isBlank c
  split : ∃ front back, s = front ++ w ++ back ∧ (∀ c ∈ front, isBlank c) ∧
    ∀ c ∈ back.head?, isBlank c

theorem Text.firstWord?_eq_some_iff {s w : Text} : firstWord? s = some w ↔ IsFirstWord s w := by
  constructor
  · intro h
    have hw : (s.dropWhile isBlank).takeWhile (!isBlank ·) = w ∧ w ≠ [] := by
      rw [firstWord?, trimStart] at h
      split at h
      · cases h
      · next hne =>
        cases h
        exact ⟨rfl, hne⟩
    refine ⟨hw.2, fun c hc => ?_, s.takeWhile isBlank,
      (s.dropWhile isBlank).dropWhile (!isBlank ·), ?_, fun c hc => List.mem_takeWhile_imp hc,
      fun c hc => ?_⟩
    · rw [← hw.1] at hc
      simpa using List.mem_takeWhile_imp hc
    · rw [← hw.1, List.append_assoc, List.takeWhile_append_dropWhile,
        List.takeWhile_append_dropWhile]
    · have hback := List.head?_dropWhile_not (!isBlank ·) (s.dropWhile isBlank)
      rw [Option.mem_def.1 hc] at hback
      simpa using hback
  · rintro ⟨hne, hvisible, front, back, rfl, hfront, hback⟩
    obtain ⟨c, w, rfl⟩ := List.exists_cons_of_ne_nil hne
    have hstart : trimStart (front ++ (c :: w) ++ back) = c :: w ++ back := by
      rw [trimStart, List.append_assoc, List.dropWhile_append_of_pos hfront, List.cons_append,
        List.dropWhile_cons_of_neg (hvisible c List.mem_cons_self)]
    have hend : back.takeWhile (!isBlank ·) = [] := by
      cases back with
      | nil => rfl
      | cons d back => exact List.takeWhile_cons_of_neg (by simp [hback d rfl])
    have hword : (c :: w ++ back).takeWhile (!isBlank ·) = c :: w := by
      rw [List.takeWhile_append_of_pos fun d hd => by simpa using hvisible d hd, hend,
        List.append_nil]
    simp only [firstWord?, hstart, hword]

theorem Text.firstWord?_eq_none_iff {s : Text} : firstWord? s = none ↔ ∀ c ∈ s, isBlank c := by
  rw [firstWord?, trimStart]
  split
  · next h =>
    refine iff_of_true rfl (List.dropWhile_eq_nil_iff.1 ?_)
    have hstart := List.head?_dropWhile_not isBlank s
    cases hs : s.dropWhile isBlank with
    | nil => rfl
    | cons c t => simp_all
  · next h =>
    refine iff_of_false nofun fun hblank => h ?_
    rw [List.dropWhile_eq_nil_iff.2 hblank]
    rfl

namespace Document

open Render (Block)

/-! ## Stretches -/

/-- An event that neither starts nor ends a code block. -/
inductive Plain where
  | text (t : Text)
  | other
  deriving DecidableEq, Repr

namespace Plain

/-- The event as it stands in a document. -/
def event : Plain → Event
  | text t => .text t
  | other => .other

/-- The text of an event that is text. -/
def content : Plain → Text
  | text t => t
  | other => []

end Plain

/-- A part of a document: a code block from its start to its end, or an event outside of blocks. -/
inductive Stretch where
  | fenced (info : Text) (body : List Plain)
  | indented (body : List Plain)
  | between (e : Plain)
  deriving DecidableEq, Repr

namespace Stretch

/-- The events of a stretch. -/
def events : Stretch → List Event
  | fenced info body => .fencedStart info :: body.map Plain.event ++ [.codeEnd]
  | indented body => .indentedStart :: body.map Plain.event ++ [.codeEnd]
  | between e => [e.event]

/-- The block of a fenced stretch: the first word of its info string and all of its text less one
newline at the end. -/
def block? : Stretch → Option Block
  | fenced info body =>
    some ⟨Text.firstWord? info, Text.dropOneEnd '\n' (body.flatMap Plain.content)⟩
  | indented _ => none
  | between _ => none

end Stretch

/-! ## Reading on -/

/-- The block that is open after some events, `current` being open before them. -/
def openAfter (current : Option Block) : List Event → Option Block
  | [] => current
  | .fencedStart info :: es => openAfter (some ⟨Text.firstWord? info, []⟩) es
  | .text t :: es => openAfter (current.map fun b => { b with code := b.code ++ t }) es
  | .codeEnd :: es => openAfter none es
  | .indentedStart :: es => openAfter current es
  | .other :: es => openAfter current es

theorem blocksFrom_append (current : Option Block) (a b : List Event) :
    blocksFrom current (a ++ b) = blocksFrom current a ++ blocksFrom (openAfter current a) b := by
  induction a generalizing current with
  | nil => rfl
  | cons e a ih =>
    cases e <;> cases current <;> simp [blocksFrom, openAfter, ih]

theorem openAfter_append (current : Option Block) (a b : List Event) :
    openAfter current (a ++ b) = openAfter (openAfter current a) b := by
  induction a generalizing current with
  | nil => rfl
  | cons e a ih => cases e <;> simp [openAfter, ih]

/-- Plain events add their text to the open block and give none. -/
theorem blocksFrom_plain (current : Option Block) (body : List Plain) :
    blocksFrom current (body.map Plain.event) = [] ∧
      openAfter current (body.map Plain.event) =
        current.map fun b => { b with code := b.code ++ body.flatMap Plain.content } := by
  induction body generalizing current with
  | nil => cases current <;> simp [blocksFrom, openAfter]
  | cons e body ih =>
    cases e <;> cases current <;> simp [blocksFrom, openAfter, ih, Plain.event, Plain.content]

/-- **A stretch gives its block and leaves none open.** -/
theorem blocksFrom_events (s : Stretch) :
    blocksFrom none s.events = s.block?.toList ∧ openAfter none s.events = none := by
  cases s with
  | fenced info body =>
    have hplain := blocksFrom_plain (some ⟨Text.firstWord? info, []⟩) body
    constructor
    · simp [Stretch.events, Stretch.block?, blocksFrom, blocksFrom_append, hplain]
    · simp [Stretch.events, openAfter, openAfter_append]
  | indented body =>
    have hplain := blocksFrom_plain none body
    constructor
    · simp [Stretch.events, Stretch.block?, blocksFrom, blocksFrom_append, hplain]
    · simp [Stretch.events, openAfter, openAfter_append]
  | between e => cases e <;> exact ⟨rfl, rfl⟩

theorem blocksFrom_flatMap_events (stretches : List Stretch) :
    blocksFrom none (stretches.flatMap Stretch.events) = stretches.filterMap Stretch.block? ∧
      openAfter none (stretches.flatMap Stretch.events) = none := by
  induction stretches with
  | nil => exact ⟨rfl, rfl⟩
  | cons s stretches ih =>
    obtain ⟨hblocks, hopen⟩ := blocksFrom_events s
    rw [List.flatMap_cons, blocksFrom_append, openAfter_append, hopen, hblocks]
    refine ⟨?_, ih.2⟩
    rw [ih.1, List.filterMap_cons]
    cases s.block? <;> rfl

/-! ## Documents one after the other -/

/-- In a list of events every fenced block that starts is ended. -/
def EndsOutside (a : List Event) : Prop :=
  ∀ before info after, a = before ++ .fencedStart info :: after → .codeEnd ∈ after

theorem endsOutside_cons {e : Event} {a : List Event} :
    EndsOutside (e :: a) ↔ (∀ info, e = .fencedStart info → .codeEnd ∈ a) ∧ EndsOutside a := by
  constructor
  · exact fun h => ⟨fun info he => h [] info a (by rw [he]; rfl),
      fun before info after ha => h (e :: before) info after (by rw [ha]; rfl)⟩
  · rintro ⟨hfirst, hrest⟩ before info after ha
    cases before with
    | nil =>
      cases ha
      exact hfirst info rfl
    | cons e' before =>
      cases ha
      exact hrest before info after rfl

/-- No block is open after events in which all fenced blocks end, one that was open before them
included. -/
theorem openAfter_eq_none_iff {current : Option Block} {a : List Event} :
    openAfter current a = none ↔ (current = none ∨ .codeEnd ∈ a) ∧ EndsOutside a := by
  induction a generalizing current with
  | nil => simp [openAfter, EndsOutside]
  | cons e a ih =>
    rw [endsOutside_cons]
    cases e with
    | fencedStart info => simpa [openAfter, ih] using fun hend _ => .inr hend
    | indentedStart | text t | codeEnd | other => simp [openAfter, ih]

/-- **A document gives the blocks of its fenced stretches in order**, each with the first word of
its info string, if there is one. What follows a document is read apart from it exactly where the
document leaves no block open. -/
theorem codeBlocks_of_stretches :
    (∀ stretches : List Stretch,
        codeBlocks (stretches.flatMap Stretch.events) = stretches.filterMap Stretch.block? ∧
          EndsOutside (stretches.flatMap Stretch.events)) ∧
      (∀ a : List Event,
        (∀ b, codeBlocks (a ++ b) = codeBlocks a ++ codeBlocks b) ↔ EndsOutside a) ∧
      ∀ info : Text, (Text.firstWord? info = none ↔ ∀ c ∈ info, isBlank c) ∧
        ∀ word, Text.firstWord? info = some word ↔ Text.IsFirstWord info word := by
  refine ⟨fun stretches => ?_, fun a => ?_, fun info =>
    ⟨Text.firstWord?_eq_none_iff, fun word => Text.firstWord?_eq_some_iff⟩⟩
  · obtain ⟨hblocks, hopen⟩ := blocksFrom_flatMap_events stretches
    exact ⟨hblocks, (openAfter_eq_none_iff.1 hopen).2⟩
  · have hiff : openAfter none a = none ↔ EndsOutside a := by simp [openAfter_eq_none_iff]
    rw [← hiff]
    constructor
    · intro h
      have hend := h [.codeEnd]
      rw [codeBlocks, codeBlocks, blocksFrom_append] at hend
      cases hopen : openAfter none a with
      | none => rfl
      | some b =>
        rw [hopen] at hend
        simp [codeBlocks, blocksFrom] at hend
    · intro hopen b
      rw [codeBlocks, codeBlocks, codeBlocks, blocksFrom_append, hopen]

/-- A block of two texts, an indented one, and a block without a language. -/
example : codeBlocks [.fencedStart " rust x".toList, .text "a\n".toList, .text "b\n".toList,
    .codeEnd, .indentedStart, .text "c".toList, .codeEnd, .text "d".toList,
    .fencedStart " ".toList, .codeEnd] =
      [⟨some "rust".toList, "a\nb".toList⟩, ⟨none, []⟩] := by decide

end Document

end MarkdownPrep
