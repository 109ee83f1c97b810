import MarkdownPrep.Text.PrivateUse
import MarkdownPrep.Text.WordChar
import MarkdownPrep.Wrap.Formula

/-!
# Candidates for wrapping

The four kinds of bare expressions that may be math. Each reader gives the number of characters
of the expression at the front of a text. An expression reaches to white space or to the end of
the text.
-/

namespace MarkdownPrep.Wrap

/-- True when a text is at its end or goes on with white space. -/
def atBreak : Text → Bool
  | [] => true
  | c :: _ => isBlank c

/-- True for the characters that the free part of an expression may hold. Private use
characters are excluded because tokens are made with them. -/
def isFree (c : Char) : Bool := c ≠ '$' && c ≠ '\n' && !isPrivateUse c

/-- The length of the longest stretch of at most `limit` free characters that ends at a break. -/
def reach (limit : Nat) : Text → Option Nat
  | [] => some 0
  | c :: s =>
    let longer :=
      match limit with
      | 0 => none
      | n + 1 => if isFree c then (reach n s).map (· + 1) else none
    longer.or (if isBlank c then some 0 else none)

/-! ## Equations -/

/-- The part of the left side of an equation that was read last. -/
inductive LeftState where
  /-- Nothing yet. -/
  | start
  /-- A base. -/
  | base
  /-- White space after a base. -/
  | baseGap
  /-- A `^` or `_`, or white space after it. -/
  | mark
  /-- An exponent or index. -/
  | script
  /-- White space after an exponent or index. -/
  | scriptGap
  /-- An operator, or white space after it. -/
  | operator
  deriving DecidableEq, Repr

/-- The state after one more character, if the left side can go on with it. -/
def LeftState.step (st : LeftState) (c : Char) : Option LeftState :=
  let isMark := c = '^' || c = '_'
  let isScript := c.isAlphanum || c = '{' || c = '}'
  let isOperator := c = '+' || c = '-' || c = '*' || c = '/'
  match st with
  | start => if c.isAlphanum then some base else none
  | base =>
    if c.isAlphanum then some base
    else if isBlank c then some baseGap
    else if isMark then some mark
    else none
  | baseGap => if isBlank c then some baseGap else if isMark then some mark else none
  | mark => if isBlank c then some mark else if isScript then some script else none
  | script =>
    if isScript then some script
    else if isBlank c then some scriptGap
    else if isOperator then some operator
    else none
  | scriptGap => if isBlank c then some scriptGap else if isOperator then some operator else none
  | operator => if isBlank c then some operator else if c.isAlphanum then some base else none

/-- True when an equals sign may follow. -/
def LeftState.mayEqual (st : LeftState) : Bool := st = script || st = scriptGap

/-- What follows the equals sign of an equation, its left side being in state `st`. -/
def afterEquals? (st : LeftState) : Text → Option Text
  | [] => none
  | c :: s =>
    match st.step c with
    | some st' => afterEquals? st' s
    | none => if c = '=' && st.mayEqual then some s else none

/-- The length of the right side of an equation. White space at its front is skipped as far as
that leaves something to read. -/
def rightSide? (s : Text) : Option Nat :=
  let gap := (s.takeWhile isBlank).length
  (List.range (gap + 1)).reverse.findSome? fun skipped =>
    match reach s.length (s.drop skipped) with
    | some (n + 1) => some (skipped + (n + 1))
    | _ => none

/-- An equation: powers or indexed names, joined by operators, that equal something. -/
def equation? (s : Text) : Option Nat := do
  let right ← afterEquals? .start s
  let n ← rightSide? right
  some (s.length - right.length + n)

theorem length_lt_of_afterEquals? {st : LeftState} {s t : Text} (h : afterEquals? st s = some t) :
    t.length < s.length := by
  induction s generalizing st with
  | nil => simp [afterEquals?] at h
  | cons c s ih =>
    simp only [afterEquals?] at h
    split at h
    · exact Nat.lt_succ_of_lt (ih h)
    · split at h
      · cases h; exact Nat.lt_succ_self _
      · simp at h

/-- An equation is not empty. -/
theorem take_ne_nil_of_equation? {s : Text} {n : Nat} (h : equation? s = some n) :
    s.take n ≠ [] := by
  simp only [equation?, Option.bind_eq_bind, Option.bind_eq_some_iff, Option.some.injEq] at h
  obtain ⟨right, hr, m, -, rfl⟩ := h
  have := length_lt_of_afterEquals? hr
  rw [ne_eq, ← List.length_eq_zero_iff, List.length_take]
  omega

/-! ## Commands -/

/-- What follows a brace group that is not empty. -/
def afterGroup? : Text → Option Text
  | '{' :: c :: s =>
    if c = '}' then none
    else match s.dropWhile (· ≠ '}') with
      | _ :: t => some t
      | [] => none
  | _ => none

/-- What follows `word` at the front of a text. -/
def afterWord? (word s : Text) : Option Text :=
  if word.isPrefixOf s then some (s.drop word.length) else none

theorem length_of_afterWord? {word s t : Text} (h : afterWord? word s = some t) :
    t.length + word.length = s.length := by
  unfold afterWord? at h
  split at h
  · next hp =>
    cases h
    have := (List.isPrefixOf_iff_prefix.1 hp).length_le
    rw [List.length_drop]
    omega
  · simp at h

theorem length_le_of_afterGroup? {s t : Text} (h : afterGroup? s = some t) :
    t.length ≤ s.length := by
  unfold afterGroup? at h
  split at h
  · next c u =>
    split at h
    · simp at h
    · split at h
      · next d v hv =>
        cases h
        have := (List.dropWhile_suffix (l := u) (· ≠ '}')).length_le
        rw [hv] at this
        simp only [List.length_cons] at this ⊢
        omega
      · simp at h
  · simp at h

/-- A `\frac` with its two groups. -/
def fraction? (s : Text) : Option Nat := do
  let s₁ ← afterWord? "\\frac".toList s
  let s₂ ← afterGroup? s₁
  let s₃ ← afterGroup? s₂
  if atBreak s₃ then some (s.length - s₃.length) else none

theorem take_ne_nil_of_fraction? {s : Text} {n : Nat} (h : fraction? s = some n) :
    s.take n ≠ [] := by
  simp only [fraction?, Option.bind_eq_bind, Option.bind_eq_some_iff] at h
  obtain ⟨s₁, h₁, s₂, h₂, s₃, h₃, h⟩ := h
  split at h
  · cases h
    have := length_of_afterWord? h₁
    have := length_le_of_afterGroup? h₂
    have := length_le_of_afterGroup? h₃
    have hw : "\\frac".toList.length = 5 := rfl
    rw [ne_eq, ← List.length_eq_zero_iff, List.length_take]
    omega
  · simp at h

/-- The commands that stand for functions and operators. -/
def functionNames : List Text :=
  ["sqrt".toList, "int".toList, "sum".toList, "prod".toList, "lim".toList, "log".toList,
    "ln".toList, "sin".toList, "cos".toList, "tan".toList, "exp".toList]

/-- A function command with at most fifty more characters. -/
def function? (s : Text) : Option Nat := do
  let s₁ ← afterWord? ['\\'] s
  let s₂ ← functionNames.findSome? fun name =>
    (afterWord? name s₁).filter fun t => !Text.startsWithWord t
  let n ← reach 50 s₂
  some (s.length - s₂.length + n)

theorem take_ne_nil_of_function? {s : Text} {n : Nat} (h : function? s = some n) :
    s.take n ≠ [] := by
  simp only [function?, Option.bind_eq_bind, Option.bind_eq_some_iff, Option.some.injEq] at h
  obtain ⟨s₁, h₁, s₂, h₂, m, -, rfl⟩ := h
  obtain ⟨name, -, h₂⟩ := List.exists_of_findSome?_eq_some h₂
  have := length_of_afterWord? h₁
  have := length_of_afterWord? (Option.filter_eq_some_iff.1 h₂).1
  rw [ne_eq, ← List.length_eq_zero_iff, List.length_take]
  simp only [List.length_singleton] at *
  omega

/-! ## Formulas -/

/-- A chemical formula. -/
def formula? (s : Text) : Option Nat :=
  let word := s.takeWhile (!isBlank ·)
  if isFormula word then some word.length else none

theorem take_ne_nil_of_formula? {s : Text} {n : Nat} (h : formula? s = some n) :
    s.take n ≠ [] := by
  simp only [formula?] at h
  split at h
  · next hf =>
    cases h
    intro hnil
    rw [← List.prefix_iff_eq_take.1 (List.takeWhile_prefix _)] at hnil
    rw [hnil] at hf
    exact absurd hf (by decide)
  · simp at h

end MarkdownPrep.Wrap
