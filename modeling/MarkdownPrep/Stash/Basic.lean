import MarkdownPrep.Stash.Token
import MarkdownPrep.Text.Cut
import MarkdownPrep.Text.PrivateUse
import MarkdownPrep.Text.Replace

/-!
# The stash

A stash holds the stretches of a text that were put aside (`put`), numbered as they came, and
gives them back where their tokens stand. Stretches are given back newest first: one put aside
late may contain the token of an earlier one, and has to be back in the text before that token
can be found.
-/

namespace MarkdownPrep

/-- Stretches put aside, the newest first. The number of a stretch is the count of older ones. -/
structure Stash where
  sentinel : Char
  newestFirst : List (Stash.Kind × Text)
  deriving DecidableEq, Repr

namespace Stash

/-- An empty stash whose tokens do not occur in a text that leaves a private use character
unused. -/
def forText (s : Text) : Stash := ⟨s.unusedPrivate, []⟩

/-- An empty stash with the same sentinel. -/
def emptied (st : Stash) : Stash := ⟨st.sentinel, []⟩

/-- The number of stretches put aside. -/
def size (st : Stash) : Nat := st.newestFirst.length

/-- The stretches put aside with their tokens, given newest first. -/
def entriesOf (sentinel : Char) : List (Kind × Text) → List (Text × Kind × Text)
  | [] => []
  | (kind, t) :: older =>
    entriesOf sentinel older ++ [(token sentinel kind older.length, kind, t)]

/-- The stretches put aside with their tokens, oldest first. -/
def entries (st : Stash) : List (Text × Kind × Text) := entriesOf st.sentinel st.newestFirst

/-- The stretch that a token stands for. -/
def get? (st : Stash) (tok : Text) : Option Text :=
  (st.entries.find? fun e => e.1 == tok).map fun e => e.2.2

/-- True when a text contains the sentinel, as a text with a token does. -/
def touches (st : Stash) (s : Text) : Bool := s.contains st.sentinel

/-- Puts a stretch aside and gives the token that stands for it. -/
def put (kind : Kind) (t : Text) (st : Stash) : Text × Stash :=
  (token st.sentinel kind st.size, ⟨st.sentinel, (kind, t) :: st.newestFirst⟩)

/-- Puts the found stretches of a cut text aside and gives the text with their tokens. -/
def hide (kind : Kind) : List Piece → Stash → Text × Stash
  | [], st => ([], st)
  | .kept c :: ps, st =>
    let (s, st') := hide kind ps st
    (c :: s, st')
  | .found t :: ps, st =>
    let (tok, st₁) := put kind t st
    let (s, st₂) := hide kind ps st₁
    (tok ++ s, st₂)

/-- Replaces the tokens of some stretches, given newest first: `back` says what takes the place
of a stretch's token, and none leaves the token where it is. -/
def giveBack (back : Kind → Text → Option Text) (sentinel : Char) :
    List (Kind × Text) → Text → Text
  | [], s => s
  | (kind, t) :: older, s =>
    giveBack back sentinel older <|
      match back kind t with
      | some new => Text.replace (token sentinel kind older.length) new s
      | none => s

/-- Gives every stretch back as it was. -/
def restore (st : Stash) (s : Text) : Text :=
  giveBack (fun _ t => some t) st.sentinel st.newestFirst s

/-- Gives the stretches of the listed kinds back as they were. -/
def restoreOnly (kinds : List Kind) (st : Stash) (s : Text) : Text :=
  giveBack (fun kind t => if kinds.contains kind then some t else none) st.sentinel
    st.newestFirst s

/-- A text with a backslash before each dollar. -/
def escapeDollars (s : Text) : Text := s.flatMap fun c => if c = '$' then ['\\', '$'] else [c]

/-- Gives every stretch back with its dollars escaped. -/
def restoreEscaped (st : Stash) (s : Text) : Text :=
  giveBack (fun _ t => some (escapeDollars t)) st.sentinel st.newestFirst s

end Stash

end MarkdownPrep
