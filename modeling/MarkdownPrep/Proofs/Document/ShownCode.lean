import MarkdownPrep.Proofs.Document.CodeBlocks

/-!
# The code that is shown

The code of a fenced block loses a newline at its end when the block is taken from its document
(`codeBlocks_fenced`), and another one when the block is rendered. So what is shown is the text of
the block without two newlines at its end, or as many as there are (`shown_of_fenced`), and it has
lost exactly one only where the text does not end in a blank line.
-/

namespace MarkdownPrep

/-! ## Newlines at the end -/

/-- The text `s` is `t` without newlines at its end: `n` of them, or all where there are fewer. -/
def Text.Sheds (n : Nat) (t s : Text) : Prop :=
  ∃ k ≤ n, t = s ++ List.replicate k '\n' ∧ (k < n → s.getLast? ≠ some '\n')

namespace Text.Sheds

variable {n : Nat} {t s : Text}

theorem zero (t : Text) : Sheds 0 t t := ⟨0, Nat.le_refl 0, by simp, nofun⟩

theorem dropOneEnd (h : Sheds n t s) : Sheds (n + 1) t (Text.dropOneEnd '\n' s) := by
  obtain ⟨k, hk, ht, hfew⟩ := h
  rw [Text.dropOneEnd]
  split
  · next hlast =>
    -- the text goes on losing newlines, so it lost as many as it could before
    obtain ⟨s, rfl⟩ := List.getLast?_eq_some_iff.1 hlast
    have hall : k = n := by
      by_contra hne
      exact hfew (by omega) hlast
    refine ⟨k + 1, by omega, ?_, by omega⟩
    rw [List.dropLast_concat, ht, List.append_assoc]
    rfl
  · next hlast => exact ⟨k, by omega, ht, fun _ => hlast⟩

/-- Of two newlines that a text may lose it loses exactly one where it ends in one, but not in
two. -/
theorem eq_append_newline_iff (h : Sheds 2 t s) :
    t = s ++ ['\n'] ↔ ['\n'] <:+ t ∧ ¬ ['\n', '\n'] <:+ t := by
  obtain ⟨k, hk, rfl, hfew⟩ := h
  match k with
  | 0 =>
    have hlast : ¬ ['\n'] <:+ s := by
      rintro ⟨front, rfl⟩
      exact hfew (by decide) List.getLast?_concat
    simp [hlast]
  | 1 =>
    have hlast : ¬ ['\n', '\n'] <:+ s ++ ['\n'] := by
      rintro ⟨front, heq⟩
      have hs : front ++ ['\n'] = s := List.append_cancel_right (by simpa using heq)
      exact hfew (by decide) (hs ▸ List.getLast?_concat)
    simpa using hlast
  | 2 => simp [List.replicate]

end Text.Sheds

/-! ## Code from its document to the reader -/

namespace Render

/-- The code that an output shows, if it shows code. -/
def Output.code? : Output → Option Text
  | .highlighted _ _ code | .plain code => some code
  | .chart _ | .diagram .. | .svg _ => none

/-- The routes on which the code of a block is shown. -/
def Route.ShowsCode : Route → Prop
  | .highlighted .. | .plain => True
  | .chart _ | .mermaid | .plantUml | .svg | .music => False

theorem exists_shown (services : Services) (session : Session) (now : Nat) {p : Preferences}
    {b : Block} (h : (routeOf p b.language).ShowsCode) :
    ∃ o, (renderBlock services p session now b).output = .ok o ∧
      o.code? = some (Text.dropOneEnd '\n' b.code) := by
  rw [renderBlock]
  cases hroute : routeOf p b.language with
  | highlighted language theme => exact ⟨_, rfl, rfl⟩
  | plain => exact ⟨_, rfl, rfl⟩
  | chart | mermaid | plantUml | svg | music =>
    rw [hroute] at h
    exact h.elim

end Render

namespace Document

open Render

/-- A fenced block gives its code without one newline at its end, whatever stands around it. -/
theorem codeBlocks_fenced (before after : List Event) (info : Text) (body : List Plain) :
    codeBlocks (before ++ (Stretch.fenced info body).events ++ after) =
      codeBlocks before ++
        ⟨Text.firstWord? info, Text.dropOneEnd '\n' (body.flatMap Plain.content)⟩ ::
          codeBlocks after := by
  have hplain := blocksFrom_plain (some ⟨Text.firstWord? info, []⟩) body
  simp [codeBlocks, Stretch.events, blocksFrom_append, blocksFrom, hplain]

/-- **What is shown of a fenced block** is its text without two newlines at the end, or as many as
there are. It is the text without its last newline if and only if the text ends in one newline and
not in two. -/
theorem shown_of_fenced (before after : List Event) (info : Text) (body : List Plain)
    (services : Services) (session : Session) (now : Nat) {p : Preferences}
    (hroute : (routeOf p (Text.firstWord? info)).ShowsCode) :
    ∃ b o code, codeBlocks (before ++ (Stretch.fenced info body).events ++ after) =
        codeBlocks before ++ b :: codeBlocks after ∧
      (renderBlock services p session now b).output = .ok o ∧ o.code? = some code ∧
      Text.Sheds 2 (body.flatMap Plain.content) code ∧
      (body.flatMap Plain.content = code ++ ['\n'] ↔
        ['\n'] <:+ body.flatMap Plain.content ∧ ¬ ['\n', '\n'] <:+ body.flatMap Plain.content) := by
  obtain ⟨o, houtput, hcode⟩ := exists_shown services session now
    (b := ⟨Text.firstWord? info, Text.dropOneEnd '\n' (body.flatMap Plain.content)⟩) hroute
  have hsheds := (Text.Sheds.zero (body.flatMap Plain.content)).dropOneEnd.dropOneEnd
  exact ⟨_, o, _, codeBlocks_fenced before after info body, houtput, hcode, hsheds,
    hsheds.eq_append_newline_iff⟩

/-- Services that leave markup alone and draw nothing. -/
def noServices : Services where
  sanitize := id
  draw _ := .error []

/-- A block of two texts that end in a blank line, after an indented block. -/
theorem shown_of_fenced_of_blank_line :
    (routeOf {} (Text.firstWord? "rust".toList)).ShowsCode ∧
    ∃ b o code, codeBlocks ([.indentedStart, .text "c\n".toList, .codeEnd] ++
        (Stretch.fenced "rust".toList [.text "a\n".toList, .text "\n".toList]).events ++
          [.text "d".toList]) = codeBlocks [.indentedStart, .text "c\n".toList, .codeEnd] ++
            b :: codeBlocks [.text "d".toList] ∧
      (renderBlock noServices {} {} 0 b).output = .ok o ∧ o.code? = some code ∧
      Text.Sheds 2 "a\n\n".toList code ∧
      ("a\n\n".toList = code ++ ['\n'] ↔
        ['\n'] <:+ "a\n\n".toList ∧ ¬ ['\n', '\n'] <:+ "a\n\n".toList) :=
  have hroute : (routeOf {} (Text.firstWord? "rust".toList)).ShowsCode := trivial
  ⟨hroute, shown_of_fenced [.indentedStart, .text "c\n".toList, .codeEnd] [.text "d".toList]
    "rust".toList [.text "a\n".toList, .text "\n".toList] noServices {} 0 hroute⟩

/-- A block whose text ends in a blank line loses the blank line as well. -/
theorem not_shown_without_last_newline :
    ¬ ∀ (info : Text) (body : List Plain) (services : Services) (p : Preferences)
        (session : Session) (now : Nat), (routeOf p (Text.firstWord? info)).ShowsCode →
      ∀ t, body.flatMap Plain.content = t ++ ['\n'] →
        ∀ b ∈ codeBlocks (Stretch.fenced info body).events, ∀ o,
          (renderBlock services p session now b).output = .ok o → o.code? = some t := by
  intro h
  have hcode := h "rust".toList [.text "a\n\n".toList] noServices {} {} 0 trivial "a\n".toList rfl
    ⟨some "rust".toList, "a\n".toList⟩ List.mem_cons_self _ rfl
  revert hcode
  decide

end Document

end MarkdownPrep
