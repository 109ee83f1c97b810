import MarkdownPrep.Offsets.Prepare
import MarkdownPrep.Proofs.Offsets.Currency
import MarkdownPrep.Proofs.Offsets.Dollar
import MarkdownPrep.Proofs.Offsets.Fence
import MarkdownPrep.Proofs.Offsets.Wrap

/-!
# Preparing by offset never fails

Every pass that cuts the text by byte offsets does what the pass over characters does
(`hideBlocks?_eq`, `hideAmounts?_eq`, `hideInlineMath?_eq`, `wrapBareMath?_eq`,
`escapeLiteral?_eq`), so none of its cuts fails, and no text is left as it was because one did
(`prepareOrKeep_eq_prepare`).
-/

namespace MarkdownPrep.Offsets

open Text

theorem hideVerbatim?_eq (s : Text) : hideVerbatim? s = some (hideVerbatim s) := by
  simp only [hideVerbatim?, hideVerbatim, hideBlocks?_eq, Option.bind_eq_bind, Option.bind_some,
    Option.pure_def]

theorem settleDollars?_eq (s : Text) : settleDollars? s = some (settleDollars s) := by
  simp only [settleDollars?, settleDollars, hideVerbatim?_eq, hideAmounts?_eq, hideInlineMath?_eq,
    wrapBareMath?_eq, escapeLiteral?_eq, Option.bind_eq_bind, Option.bind_some, Option.pure_def]

theorem prepare?_eq (s : Text) : prepare? s = some (prepare s) := by
  rw [prepare?, settleDollars?_eq, prepare]
  split <;> rfl

/-- **No cut fails**, so every text is prepared and none is kept as it was. For a text is cut at an
offset only if a part `t` of the text ends there, and between two offsets only if `t` and then `u`
end there. -/
theorem prepareOrKeep_eq_prepare (s : Text) :
    prepare? s = some (prepare s) ∧ prepareOrKeep s = prepare s ∧
      (∀ (i : Nat) (text u : Text), from? i text = some u ↔ ∃ t, text = t ++ u ∧ i = utf8Size t) ∧
      ∀ (i j : Nat) (text u : Text), slice? i j text = some u ↔
        ∃ t v, text = t ++ u ++ v ∧ i = utf8Size t ∧ j = utf8Size (t ++ u) :=
  ⟨prepare?_eq s, by rw [prepareOrKeep, prepare?_eq]; rfl, fun _ _ _ => from?_eq_some_iff,
    fun _ _ _ _ => slice?_eq_some_iff⟩

end MarkdownPrep.Offsets
