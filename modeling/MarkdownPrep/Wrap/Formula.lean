import MarkdownPrep.Text.DecimalDigit

/-!
# Chemical formulas

A formula is a row of units such as `H2`, `Na+` or `Mg(O)2`: an element symbol, a count, at most
one parenthesised element with its count, a count, and a charge. `isFormula` decides it character
by character; the state says which part of a unit was read last.
-/

namespace MarkdownPrep

namespace Formula

/-- The part of a unit that was read last. -/
inductive State where
  /-- Nothing yet. -/
  | start
  /-- The capital of an element symbol. -/
  | capital
  /-- The small letter or the count of an element. -/
  | counted
  /-- An opening parenthesis. -/
  | opened
  /-- The capital of an element symbol in parentheses. -/
  | innerCapital
  /-- The small letter or the count of an element in parentheses. -/
  | innerCounted
  /-- A closing parenthesis or the count after it. -/
  | closed
  /-- The sign or the number of a charge. -/
  | charged
  deriving DecidableEq, Repr

/-- The state after one more character, if the formula can go on with it. -/
def State.step (st : State) (c : Char) : Option State :=
  match st with
  | start => if c.isUpper then some capital else none
  | capital =>
    if c.isUpper then some capital
    else if c.isLower || isDecimalDigit c then some counted
    else if c = '(' then some opened
    else if c = '+' || c = '-' then some charged
    else none
  | counted =>
    if c.isUpper then some capital
    else if isDecimalDigit c then some counted
    else if c = '(' then some opened
    else if c = '+' || c = '-' then some charged
    else none
  | opened => if c.isUpper then some innerCapital else none
  | innerCapital =>
    if c.isLower || isDecimalDigit c then some innerCounted
    else if c = ')' then some closed
    else none
  | innerCounted =>
    if isDecimalDigit c then some innerCounted else if c = ')' then some closed else none
  | closed =>
    if c.isUpper then some capital
    else if isDecimalDigit c then some closed
    else if c = '+' || c = '-' then some charged
    else none
  | charged =>
    if c.isUpper then some capital else if isDecimalDigit c then some charged else none

/-- True when a formula may end here. -/
def State.mayEnd : State → Bool
  | capital | counted | closed | charged => true
  | start | opened | innerCapital | innerCounted => false

/-- True when a text is a row of units from the state `st` on. -/
def acceptsFrom (st : State) : Text → Bool
  | [] => st.mayEnd
  | c :: s =>
    match st.step c with
    | some st' => acceptsFrom st' s
    | none => false

end Formula

/-- True when a text is a chemical formula. -/
def isFormula (s : Text) : Bool := Formula.acceptsFrom .start s

end MarkdownPrep
