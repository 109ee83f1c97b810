import Mathlib.Tactic.SplitIfs
import MarkdownPrep.Json.Reader
import MarkdownPrep.Json.Value
import MarkdownPrep.Proofs.Text.Digits

/-!
# Written values are read back

The reader takes the text of a value whose numbers are all whole (`Value.isWhole`) for the tree of
that value (`Value.tree`), whatever arrays and objects are open around it, as long as one of the
characters follows that may stand after a value (`run_write`). A written object is a document of
its own (`read?_write_object`).
-/

namespace MarkdownPrep.Json

/-- To prove a statement about all values, prove it of an array or object from its parts. -/
@[elab_as_elim, induction_eliminator]
theorem Value.induction {motive : Value → Prop} (null : motive .null) (bool : ∀ b, motive (.bool b))
    (number : ∀ n, motive (.number n)) (string : ∀ s, motive (.string s))
    (array : ∀ items, (∀ v ∈ items, motive v) → motive (.array items))
    (object : ∀ members, (∀ m ∈ members, motive m.2) → motive (.object members)) (v : Value) :
    motive v :=
  match v with
  | .null => null
  | .bool b => bool b
  | .number n => number n
  | .string s => string s
  | .array items => array items fun v _ => v.induction null bool number string array object
  | .object members =>
    object members fun m _ => m.2.induction null bool number string array object
termination_by sizeOf v
decreasing_by
  · have := List.sizeOf_lt_of_mem ‹v ∈ items›
    simp only [Value.array.sizeOf_spec]
    omega
  · obtain ⟨k, w⟩ := m
    have := List.sizeOf_lt_of_mem ‹(k, w) ∈ members›
    simp only [Value.object.sizeOf_spec, Prod.mk.sizeOf_spec] at this ⊢
    omega

/-! ## The tree of a value -/

/-- What a character of a string is read as when the string was written. -/
def Glyph.ofChar (c : Char) : Glyph :=
  if c.toNat < 0x20 ∧ c ∉ ['\x08', '\t', '\n', '\x0c', '\r'] then .unit c.toNat else .char c

/-- The literal of a whole number. -/
def Literal.ofInt (n : Int) : Literal := ⟨n < 0, Nat.toDigits 10 n.natAbs, none, none⟩

mutual

/-- The tree that a value is read as when it was written. Numbers that are not whole stand as null:
they are not treated here. -/
def Value.tree : Value → Tree
  | .null => .null
  | .bool b => .bool b
  | .number (.int n) => .number (.ofInt n)
  | .number (.float _) => .null
  | .string s => .string (s.map .ofChar)
  | .array items => .array (itemTrees items)
  | .object members => .object (memberTrees members)

/-- The trees of the items of an array. -/
def itemTrees : List Value → List Tree
  | [] => []
  | v :: vs => v.tree :: itemTrees vs

/-- The trees of the members of an object. -/
def memberTrees : List (Text × Value) → List (List Glyph × Tree)
  | [] => []
  | (k, v) :: ms => (k.map .ofChar, v.tree) :: memberTrees ms

end

theorem itemTrees_eq_map (vs : List Value) : itemTrees vs = vs.map Value.tree := by
  induction vs with
  | nil => rfl
  | cons v vs ih => rw [itemTrees, ih, List.map_cons]

mutual

/-- True when every number in a value is whole. -/
def Value.isWhole : Value → Bool
  | .number (.float _) => false
  | .array items => areWhole items
  | .object members => haveWhole members
  | _ => true

/-- True when every number in some values is whole. -/
def areWhole : List Value → Bool
  | [] => true
  | v :: vs => v.isWhole && areWhole vs

/-- True when every number in the values of some members is whole. -/
def haveWhole : List (Text × Value) → Bool
  | [] => true
  | (_, v) :: ms => v.isWhole && haveWhole ms

end

theorem isWhole_array {vs : List Value} :
    (Value.array vs).isWhole ↔ ∀ v ∈ vs, v.isWhole := by
  rw [Value.isWhole]
  induction vs with
  | nil => simp [areWhole]
  | cons v vs ih => rw [areWhole, Bool.and_eq_true, ih, List.forall_mem_cons]

theorem isWhole_object {ms : List (Text × Value)} :
    (Value.object ms).isWhole ↔ ∀ m ∈ ms, m.2.isWhole := by
  rw [Value.isWhole]
  induction ms with
  | nil => simp [haveWhole]
  | cons m ms ih => rw [haveWhole, Bool.and_eq_true, ih, List.forall_mem_cons]

namespace Reader

variable (frames : List Frame) (rest : Text)

theorem run_of_step {r r' : Reader} {c : Char} (h : step r c = some r') (s : Text) :
    run r (c :: s) = run r' s := by rw [run, h, Option.bind_some]

/-! ## Strings -/

theorem hexDigit?_hexDigit {n : Nat} (h : n < 16) : hexDigit? (hexDigit n) = some n := by
  have hall : ∀ n < 16, hexDigit? (hexDigit n) = some n := by decide
  exact hall n h

theorem run_writeChar (isKey : Bool) (gs : List Glyph) (c : Char) :
    run ⟨.string isKey gs, frames⟩ (writeChar c ++ rest) =
      run ⟨.string isKey (.ofChar c :: gs), frames⟩ rest := by
  rw [writeChar]
  split_ifs with hquote hslash hb ht hn hf hr hcontrol
  -- the short escapes
  · subst hquote; rfl
  · subst hslash; rfl
  · subst hb; rfl
  · subst ht; rfl
  · subst hn; rfl
  · subst hf; rfl
  · subst hr; rfl
  -- any other control character, with its code in four digits of which two are zero
  · have hhigh := hexDigit?_hexDigit (n := c.toNat / 16) (by omega)
    have hlow := hexDigit?_hexDigit (n := c.toNat % 16) (by omega)
    have hchar : Glyph.ofChar c = .unit ((c.toNat / 16) * 16 + c.toNat % 16) := by
      rw [Glyph.ofChar, if_pos ⟨hcontrol, by simp [hb, ht, hn, hf, hr]⟩, Nat.div_add_mod']
    have hzeros : run ⟨.string isKey gs, frames⟩
        ("\\u00".toList ++ [hexDigit (c.toNat / 16), hexDigit (c.toNat % 16)] ++ rest) =
        run ⟨.hex isKey gs 2 0, frames⟩
          (hexDigit (c.toNat / 16) :: hexDigit (c.toNat % 16) :: rest) := rfl
    have hfirst : step ⟨.hex isKey gs 2 0, frames⟩ (hexDigit (c.toNat / 16)) =
        some ⟨.hex isKey gs 1 (c.toNat / 16), frames⟩ := by simp [step, hhigh]
    have hsecond : step ⟨.hex isKey gs 1 (c.toNat / 16), frames⟩ (hexDigit (c.toNat % 16)) =
        some ⟨.string isKey (.ofChar c :: gs), frames⟩ := by simp [step, hlow, hchar]
    rw [hzeros, run_of_step hfirst, run_of_step hsecond]
  · have hchar : Glyph.ofChar c = .char c := if_neg fun h => hcontrol h.1
    have hstep : step ⟨.string isKey gs, frames⟩ c =
        some ⟨.string isKey (.char c :: gs), frames⟩ := by
      simp [step, hquote, hslash, hcontrol]
    rw [hchar, List.singleton_append, run_of_step hstep]

theorem run_writeString (isKey : Bool) (s : Text) :
    run ⟨.string isKey [], frames⟩ (s.flatMap writeChar ++ '"' :: rest) =
      run (finishString isKey (s.map Glyph.ofChar).reverse frames) rest := by
  -- the glyphs that were read before stay where they are
  have hgo : ∀ gs, run ⟨.string isKey gs, frames⟩ (s.flatMap writeChar ++ '"' :: rest) =
      run ⟨.string isKey ((s.map Glyph.ofChar).reverse ++ gs), frames⟩ ('"' :: rest) := by
    induction s with
    | nil => exact fun _ => rfl
    | cons c s ih =>
      intro gs
      rw [List.flatMap_cons, List.append_assoc, run_writeChar, ih, List.map_cons,
        List.reverse_cons, List.append_assoc]
      rfl
  rw [hgo, List.append_nil]
  rfl

/-! ## Whole numbers -/

theorem run_digits {ds : Text} (h : ∀ c ∈ ds, c.isDigit) (l : Literal) :
    run ⟨.number .whole l, frames⟩ (ds ++ rest) =
      run ⟨.number .whole { l with whole := l.whole ++ ds }, frames⟩ rest := by
  induction ds generalizing l with
  | nil => rw [List.nil_append, List.append_nil]
  | cons c ds ih =>
    rw [List.forall_mem_cons] at h
    have hstep : step ⟨.number .whole l, frames⟩ c =
        some ⟨.number .whole { l with whole := l.whole ++ [c] }, frames⟩ := by
      simp [step, stepNumber, h.1]
    rw [List.cons_append, run_of_step hstep, ih h.2, List.append_assoc, List.singleton_append]

/-- A character that may stand after a value in an array or object. -/
def Ends (c : Char) : Prop := c = ',' ∨ c = ']' ∨ c = '\x7d'

theorem step_complete (t : Tree) (c : Char) :
    step (complete t frames) c = stepSeparator (complete t frames) c := by
  rcases frames with _ | ⟨before | before | ⟨before, key⟩, frames⟩ <;> rfl

variable {c : Char} (hc : Ends c)
include hc

/-- A number ends where the value ends. -/
theorem run_number_end {part : NumberPart} (hpart : part = .leadingZero ∨ part = .whole)
    (l : Literal) :
    run ⟨.number part l, frames⟩ (c :: rest) = run (complete (.number l) frames) (c :: rest) := by
  have hnone : stepNumber part l c = none := by
    rcases hpart with rfl | rfl <;> rcases hc with rfl | rfl | rfl <;> rfl
  have hend : mayEnd part := by rcases hpart with rfl | rfl <;> rfl
  rw [run, run, step_complete, step]
  simp only [hnone, hend, if_true]

/-- The digits of a number are read to their end, the first of them as in any state where a number
goes on with it. -/
theorem run_toDigits {r : Reader} {negative : Bool} (n : Nat)
    (hzero : step r '0' = some ⟨.number .leadingZero ⟨negative, ['0'], none, none⟩, frames⟩)
    (hdigit : ∀ d : Char, d.isDigit → d ≠ '0' →
      step r d = some ⟨.number .whole ⟨negative, [d], none, none⟩, frames⟩) :
    run r (Nat.toDigits 10 n ++ c :: rest) =
      run (complete (.number ⟨negative, Nat.toDigits 10 n, none, none⟩) frames) (c :: rest) := by
  rcases Nat.eq_zero_or_pos n with rfl | hn
  · exact (run_of_step hzero (c :: rest)).trans (run_number_end frames rest hc (.inl rfl) _)
  · obtain ⟨d, ds, hds, hd⟩ := exists_toDigits_eq hn
    have hall : ∀ e ∈ d :: ds, e.isDigit := fun e he =>
      Nat.isDigit_of_mem_toDigits (by decide) (by decide) (hds ▸ he)
    rw [List.forall_mem_cons] at hall
    rw [hds, List.cons_append, run_of_step (hdigit d hall.1 hd), run_digits frames _ hall.2,
      run_number_end frames rest hc (.inr rfl)]
    rfl

theorem run_writeInt (first : Bool) (n : Int) :
    run ⟨.value first, frames⟩ (writeInt n ++ c :: rest) =
      run (complete (.number (.ofInt n)) frames) (c :: rest) := by
  rw [writeInt, Literal.ofInt]
  split
  · next hn =>
    have hminus : step ⟨.value first, frames⟩ '-' =
        some ⟨.number .minus ⟨true, [], none, none⟩, frames⟩ := rfl
    rw [List.cons_append, run_of_step hminus, decide_eq_true hn]
    refine run_toDigits frames rest hc n.natAbs rfl fun d hd hne => ?_
    simp [step, stepNumber, hd, hne]
  · next hn =>
    rw [decide_eq_false hn]
    refine run_toDigits frames rest hc n.natAbs rfl fun d hd hne => ?_
    have hother : ∀ e : Char, e.isDigit = false → d ≠ e := fun e he h => by
      rw [← h, hd] at he
      exact absurd he (by decide)
    simp [step, stepValue, isSpace, hd, hne, hother ' ' rfl, hother '\t' rfl, hother '\n' rfl,
      hother '\r' rfl, hother '[' rfl, hother '\x7b' rfl, hother '"' rfl, hother 'n' rfl,
      hother 't' rfl, hother 'f' rfl, hother '-' rfl]

/-! ## Values -/

omit hc

/-- The text of a value is read as its tree wherever a value is due. -/
def ReadsBack (v : Value) : Prop :=
  ∀ (first : Bool) (frames : List Frame) (c : Char) (rest : Text), Ends c →
    run ⟨.value first, frames⟩ (v.write ++ c :: rest) = run (complete v.tree frames) (c :: rest)

theorem run_writeItems {v : Value} {vs : List Value} (h : ∀ w ∈ v :: vs, ReadsBack w) (first : Bool)
    (before : List Tree) :
    run ⟨.value first, .items before :: frames⟩ (writeItems (v :: vs) ++ ']' :: rest) =
      run (complete (.array (before.reverse ++ itemTrees (v :: vs))) frames) rest := by
  induction vs generalizing v first before with
  | nil =>
    rw [List.forall_mem_cons] at h
    have hstep : step (complete v.tree (.items before :: frames)) ']' =
        some (complete (.array (v.tree :: before).reverse) frames) := rfl
    rw [writeItems, h.1 first _ _ _ (.inr (.inl rfl)), run_of_step hstep, List.reverse_cons]
    rfl
  | cons w vs ih =>
    rw [List.forall_mem_cons] at h
    have hstep : step (complete v.tree (.items before :: frames)) ',' =
        some ⟨.value false, .items (v.tree :: before) :: frames⟩ := rfl
    rw [writeItems, List.append_assoc, List.cons_append, h.1 first _ _ _ (.inl rfl),
      run_of_step hstep, ih h.2, List.reverse_cons, List.append_assoc]
    · rfl
    · exact List.cons_ne_nil _ _

/-- A key and the colon after it. -/
theorem run_writeKey (first : Bool) (before : List (List Glyph × Tree)) (k : Text) :
    run ⟨.key first, .members before :: frames⟩ (writeString k ++ ':' :: rest) =
      run ⟨.value false, .entry before (k.map .ofChar) :: frames⟩ rest := by
  have hquote : step ⟨.key first, .members before :: frames⟩ '"' =
      some ⟨.string true [], .members before :: frames⟩ := rfl
  have hcolon : step ⟨.colon (k.map .ofChar), .members before :: frames⟩ ':' =
      some ⟨.value false, .entry before (k.map .ofChar) :: frames⟩ := rfl
  rw [writeString, List.append_assoc, List.cons_append, run_of_step hquote, List.singleton_append,
    run_writeString, finishString, if_pos rfl, List.reverse_reverse, run_of_step hcolon]

theorem run_writeMembers {m : Text × Value} {ms : List (Text × Value)}
    (h : ∀ e ∈ m :: ms, ReadsBack e.2) (first : Bool) (before : List (List Glyph × Tree)) :
    run ⟨.key first, .members before :: frames⟩ (writeMembers (m :: ms) ++ '\x7d' :: rest) =
      run (complete (.object (before.reverse ++ memberTrees (m :: ms))) frames) rest := by
  induction ms generalizing m first before with
  | nil =>
    obtain ⟨k, v⟩ := m
    rw [List.forall_mem_cons] at h
    have hstep : step (complete v.tree (.entry before (k.map .ofChar) :: frames)) '\x7d' =
        some (complete (.object ((k.map .ofChar, v.tree) :: before).reverse) frames) := rfl
    rw [writeMembers, List.append_assoc, List.cons_append, run_writeKey,
      h.1 false _ _ _ (.inr (.inr rfl)), run_of_step hstep, List.reverse_cons]
    rfl
  | cons m' ms ih =>
    obtain ⟨k, v⟩ := m
    rw [List.forall_mem_cons] at h
    have hstep : step (complete v.tree (.entry before (k.map .ofChar) :: frames)) ',' =
        some ⟨.key false, .members ((k.map .ofChar, v.tree) :: before) :: frames⟩ := rfl
    rw [writeMembers, List.append_assoc, List.cons_append, List.append_assoc, List.cons_append,
      run_writeKey, h.1 false _ _ _ (.inl rfl), run_of_step hstep, ih h.2, List.reverse_cons,
      List.append_assoc]
    · rfl
    · exact List.cons_ne_nil _ _

theorem run_writeArray {vs : List Value} (h : ∀ v ∈ vs, ReadsBack v) (first : Bool) :
    run ⟨.value first, frames⟩ ((Value.array vs).write ++ rest) =
      run (complete (.array (itemTrees vs)) frames) rest := by
  have hstep : step ⟨.value first, frames⟩ '[' = some ⟨.value true, .items [] :: frames⟩ := rfl
  rw [Value.write, List.append_assoc, List.cons_append, run_of_step hstep, List.singleton_append]
  cases vs with
  | nil => rfl
  | cons v vs => exact run_writeItems frames rest h true []

theorem run_writeObject {ms : List (Text × Value)} (h : ∀ m ∈ ms, ReadsBack m.2) (first : Bool) :
    run ⟨.value first, frames⟩ ((Value.object ms).write ++ rest) =
      run (complete (.object (memberTrees ms)) frames) rest := by
  have hstep : step ⟨.value first, frames⟩ '\x7b' = some ⟨.key true, .members [] :: frames⟩ := rfl
  rw [Value.write, List.append_assoc, List.cons_append, run_of_step hstep, List.singleton_append]
  cases ms with
  | nil => rfl
  | cons m ms => exact run_writeMembers frames rest h true []

/-- **The text of a value with whole numbers is read as its tree.** -/
theorem run_write {v : Value} (h : v.isWhole) : ReadsBack v := by
  induction v with
  | null => exact fun _ _ _ _ _ => rfl
  | bool b => cases b <;> exact fun _ _ _ _ _ => rfl
  | number n =>
    cases n with
    | int n => exact fun first frames c rest hc => run_writeInt frames rest hc first n
    | float x => exact absurd h (by simp [Value.isWhole])
  | string s =>
    intro first frames c rest _
    have hstep : step ⟨.value first, frames⟩ '"' = some ⟨.string false [], frames⟩ := rfl
    rw [Value.write, writeString, List.append_assoc, List.cons_append, run_of_step hstep,
      List.singleton_append, run_writeString, finishString, if_neg (by decide),
      List.reverse_reverse]
    rfl
  | array vs ih =>
    have hall := isWhole_array.1 h
    exact fun first frames c rest _ =>
      run_writeArray frames (c :: rest) (fun v hv => ih v hv (hall v hv)) first
  | object ms ih =>
    have hall := isWhole_object.1 h
    exact fun first frames c rest _ =>
      run_writeObject frames (c :: rest) (fun m hm => ih m hm (hall m hm)) first

end Reader

/-- A written object is a document. -/
theorem read?_write_object {ms : List (Text × Value)} (h : (Value.object ms).isWhole) :
    Tree.read? (Value.object ms).write = some (Value.object ms).tree := by
  have hall := fun m hm => Reader.run_write (isWhole_object.1 h m hm)
  have hrun := Reader.run_writeObject [] [] hall false
  rw [List.append_nil] at hrun
  rw [Tree.read?, Reader.start, hrun]
  rfl

end MarkdownPrep.Json
