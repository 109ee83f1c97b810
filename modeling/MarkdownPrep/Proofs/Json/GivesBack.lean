import MarkdownPrep.Json.Decode
import MarkdownPrep.Proofs.Json.Members
import MarkdownPrep.Proofs.Json.ReadBack

/-!
# Decoders that give back what is encoded

A value is canonical when it is one that decoding can give (`Value.Canonical`): the members of its
objects are in the order of their keys and its whole numbers fit into 64 bits. The tree of such a
value decodes to the value, if it is not too deep (`value_tree`). `Decoder.GivesBack` says the same
of any decoder and its encoding, and the lemmas about it follow the decoders.
-/

namespace MarkdownPrep.Json

/-! ## Depth -/

mutual

/-- The number of levels of arrays and objects in a value. -/
def Value.depth : Value → Nat
  | .array items => itemsDepth items + 1
  | .object members => membersDepth members + 1
  | _ => 0

/-- The greatest depth of some values. -/
def itemsDepth : List Value → Nat
  | [] => 0
  | v :: vs => max v.depth (itemsDepth vs)

/-- The greatest depth of the values of some members. -/
def membersDepth : List (Text × Value) → Nat
  | [] => 0
  | (_, v) :: ms => max v.depth (membersDepth ms)

end

theorem depth_array_le {vs : List Value} {d : Nat} :
    (Value.array vs).depth ≤ d ↔ ∃ d', d = d' + 1 ∧ ∀ v ∈ vs, v.depth ≤ d' := by
  have hitems : ∀ d', itemsDepth vs ≤ d' ↔ ∀ v ∈ vs, v.depth ≤ d' := fun d' => by
    induction vs with
    | nil => simp [itemsDepth]
    | cons v vs ih => rw [itemsDepth, Nat.max_le, ih, List.forall_mem_cons]
  rw [Value.depth]
  cases d with
  | zero => simp
  | succ d => simp [hitems]

theorem depth_object_le {ms : List (Text × Value)} {d : Nat} :
    (Value.object ms).depth ≤ d ↔ ∃ d', d = d' + 1 ∧ ∀ m ∈ ms, m.2.depth ≤ d' := by
  have hmembers : ∀ d', membersDepth ms ≤ d' ↔ ∀ m ∈ ms, m.2.depth ≤ d' := fun d' => by
    induction ms with
    | nil => simp [membersDepth]
    | cons m ms ih => rw [membersDepth, Nat.max_le, ih, List.forall_mem_cons]
  rw [Value.depth]
  cases d with
  | zero => simp
  | succ d => simp [hmembers]

/-! ## Strings and numbers -/

theorem Glyph.text?_unit_cons {code : Nat} (h : code < 0xD800) (gs : List Glyph) :
    text? (.unit code :: gs) = (text? gs).map (Char.ofNat code :: ·) := by
  have hhigh : isHighSurrogate code = false := by simp [isHighSurrogate, h]
  have hlow : isLowSurrogate code = false := by
    simp [isLowSurrogate, Nat.lt_trans h (by decide : 0xD800 < 0xDC00)]
  match gs with
  | [] => simp [text?, hhigh, hlow]
  | .char c :: gs => simp [text?, hhigh, hlow]
  | .unit low :: gs => simp [text?, hhigh, hlow]

theorem Glyph.text?_map_ofChar (s : Text) : text? (s.map ofChar) = some s := by
  induction s with
  | nil => rfl
  | cons c s ih =>
    rw [List.map_cons, ofChar]
    split
    · next h =>
      have hcode : c.toNat < 0xD800 := Nat.lt_trans h.1 (by decide)
      rw [text?_unit_cons hcode, ih, Option.map_some, Char.ofNat_toNat]
    · rw [text?, ih, Option.map_some]

/-- A whole number that a literal can write. -/
def Fits (n : Int) : Prop := -(1 <<< 63 : Nat) ≤ n ∧ n < (1 <<< 64 : Nat)

theorem Literal.number?_ofInt {n : Int} (h : Fits n) : (ofInt n).number? = some (.int n) := by
  obtain ⟨hleast, hgreatest⟩ := h
  by_cases hn : n < 0
  · have hrange : (0 < n.natAbs && n.natAbs ≤ 1 <<< 63) = true := by
      rw [Bool.and_eq_true, decide_eq_true_iff, decide_eq_true_iff]
      omega
    have hback : -(n.natAbs : Int) = n := by omega
    simp only [number?, ofInt, decide_eq_true hn, digitsValue_toDigits, hrange, if_true, hback]
  · have hrange : n.natAbs < significands := by
      rw [significands]
      omega
    have hback : (n.natAbs : Int) = n := by omega
    simp only [number?, ofInt, decide_eq_false hn, digitsValue_toDigits, if_pos hrange, hback]

theorem Literal.fits_of_number? {l : Literal} {n : Int} (h : l.number? = some (.int n)) :
    Fits n := by
  have hfloat : ∀ x : Option Binary64, x.map Number.float ≠ some (.int n) := by
    intro x
    cases x <;> simp
  rw [number?] at h
  split at h
  · rcases ite_eq_iff.1 h with ⟨hn, hint⟩ | ⟨-, h⟩
    · cases hint
      rw [significands] at hn
      constructor <;> omega
    · exact absurd h (hfloat _)
  · rcases ite_eq_iff.1 h with ⟨hn, hint⟩ | ⟨-, h⟩
    · cases hint
      rw [Bool.and_eq_true, decide_eq_true_iff, decide_eq_true_iff] at hn
      constructor <;> omega
    · exact absurd h (hfloat _)
  · exact absurd h (hfloat _)

/-! ## Values -/

/-- A value as decoding gives it. -/
inductive Value.Canonical : Value → Prop
  | null : Canonical .null
  | bool (b : Bool) : Canonical (.bool b)
  | int {n : Int} (h : Fits n) : Canonical (.number (.int n))
  | float (x : Binary64) : Canonical (.number (.float x))
  | string (s : Text) : Canonical (.string s)
  | array {items : List Value} (h : ∀ v ∈ items, Canonical v) : Canonical (.array items)
  | object {members : List (Text × Value)} (hsorted : Sorted members)
    (h : ∀ m ∈ members, Canonical m.2) : Canonical (.object members)

/-- The members of an object as they stand in a row of data. -/
structure IsRecord (r : List (Text × Value)) : Prop where
  keys : (r.map Prod.fst).Nodup
  values : ∀ m ∈ r, m.2.Canonical

namespace IsRecord

theorem nil : IsRecord [] := ⟨List.nodup_nil, nofun⟩

theorem insertLast {r : List (Text × Value)} (h : IsRecord r) (key : Text) {v : Value}
    (hv : v.Canonical) : IsRecord (Json.insertLast key v r) where
  keys := nodup_insertLast key v h.keys
  values m hm := by
    rcases eq_or_mem_of_mem_insertLast hm with rfl | hm
    · exact hv
    · exact h.values m hm

end IsRecord

namespace Decoder

theorem values_itemTrees {vs : List Value} {d : Nat} (h : ∀ v ∈ vs, value v.tree d = some v) :
    values (itemTrees vs) d = some vs := by
  induction vs with
  | nil => rfl
  | cons v vs ih =>
    rw [List.forall_mem_cons] at h
    rw [itemTrees, values, h.1, ih h.2]
    rfl

theorem members_memberTrees {ms : List (Text × Value)} {d : Nat}
    (h : ∀ m ∈ ms, value m.2.tree d = some m.2) : members (memberTrees ms) d = some ms := by
  induction ms with
  | nil => rfl
  | cons m ms ih =>
    rw [List.forall_mem_cons] at h
    rw [memberTrees, members, Glyph.text?_map_ofChar, h.1, ih h.2]
    rfl

/-- **The tree of a canonical value decodes to the value.** -/
theorem value_tree {v : Value} (hc : v.Canonical) (hw : v.isWhole) {d : Nat} (hd : v.depth ≤ d) :
    value v.tree d = some v := by
  induction hc generalizing d with
  | null => rfl
  | bool b => rfl
  | int h => rw [Value.tree, value, Literal.number?_ofInt h, Option.map_some]
  | float x => exact absurd hw (by simp [Value.isWhole])
  | string s => rw [Value.tree, value, Glyph.text?_map_ofChar, Option.map_some]
  | array _ ih =>
    obtain ⟨d', rfl, hdepth⟩ := depth_array_le.1 hd
    have hw := isWhole_array.1 hw
    have hitems := values_itemTrees fun v hv => ih v hv (hw v hv) (hdepth v hv)
    simp only [Value.tree, value, hitems, Option.map_some]
  | object hsorted _ ih =>
    obtain ⟨d', rfl, hdepth⟩ := depth_object_le.1 hd
    have hw := isWhole_object.1 hw
    have hmembers := members_memberTrees fun m hm => ih m hm (hw m hm) (hdepth m hm)
    -- decoding puts the members in order one by one, and they are in order
    have hfold := @foldl_insertSorted _ [] _ hsorted
    simp only [Value.tree, value, hmembers, Option.map_some]
    exact congrArg (some ∘ Value.object) hfold

/-! ## Decoders and encodings -/

theorem optional_of_ne_null {α : Type} {decoder : Decoder α} {d : Nat} {t : Tree}
    (h : t ≠ .null) : optional decoder d t = (decoder d t).map some := by
  rw [optional]
  exact h

/-- What is encoded without a number that is not whole is not null, and the decoder gives it back if
it is not too deep. -/
def GivesBack {α : Type} (decoder : Decoder α) (encode : α → Value) (a : α) : Prop :=
  (encode a).isWhole →
    (encode a).tree ≠ .null ∧ ∀ d, (encode a).depth ≤ d → decoder d (encode a).tree = some a

theorem givesBack_value {v : Value} (hc : v.Canonical) (hne : v ≠ .null) :
    GivesBack anyValue id v := by
  intro hw
  refine ⟨?_, fun d hd => value_tree hc hw hd⟩
  cases v with
  | null => exact absurd rfl hne
  | number n =>
    cases n with
    | int n => simp [Value.tree]
    | float x => exact absurd hw (by simp [Value.isWhole])
  | bool | string | array | object => simp [Value.tree]

theorem givesBack_record {r : List (Text × Value)} (hr : IsRecord r) :
    GivesBack record .object r := by
  intro hw
  refine ⟨nofun, fun d hd => ?_⟩
  obtain ⟨d', rfl, hdepth⟩ := depth_object_le.1 hd
  have hw := isWhole_object.1 hw
  have hmembers := members_memberTrees fun m hm =>
    value_tree (hr.values m hm) (hw m hm) (hdepth m hm)
  have hfold := @foldl_insertLast _ [] _ hr.keys
  simp only [Value.tree, record, hmembers, Option.map_some]
  exact congrArg some hfold

theorem givesBack_text (s : Text) : GivesBack text .string s :=
  fun _ => ⟨nofun, fun _ _ => Glyph.text?_map_ofChar s⟩

theorem givesBack_bool (b : Bool) : GivesBack bool .bool b :=
  fun _ => ⟨nofun, fun _ _ => rfl⟩

/-- A binary64 number is written with a point or an exponent. -/
theorem givesBack_float (x : Binary64) : GivesBack float (fun x => .number (.float x)) x :=
  fun h => absurd h (by simp [Value.isWhole])

theorem givesBack_nat32 {n : Nat} (h : n < 1 <<< 32) :
    GivesBack nat32 (fun n => .number (.int n)) n := by
  intro _
  refine ⟨nofun, fun d _ => ?_⟩
  have hfits : Fits n := by constructor <;> omega
  have hrange : (0 ≤ (n : Int) && n < 1 <<< 32) = true := by
    rw [Bool.and_eq_true, decide_eq_true_iff, decide_eq_true_iff]
    omega
  simp only [Value.tree, nat32, Literal.number?_ofInt hfits, Int.toNat_natCast, hrange, if_true]

theorem givesBack_named {α : Type} {values : List (Text × α)} {name : α → Text} {a : α}
    (h : values.lookup (name a) = some a) :
    GivesBack (named values) (fun a => .string (name a)) a := by
  intro _
  refine ⟨nofun, fun d _ => ?_⟩
  have htext := Glyph.text?_map_ofChar (name a)
  cases d <;> simp only [Value.tree, named, htext, Option.bind_some, h]

theorem mapM_map {α β : Type} {f : β → Option α} {g : α → β} {as : List α}
    (h : ∀ a ∈ as, f (g a) = some a) : (as.map g).mapM f = some as := by
  induction as with
  | nil => rfl
  | cons a as ih =>
    rw [List.forall_mem_cons] at h
    rw [List.map_cons, List.mapM_cons, h.1, ih h.2]
    rfl

theorem givesBack_list {α : Type} {decoder : Decoder α} {encode : α → Value} {as : List α}
    (h : ∀ a ∈ as, GivesBack decoder encode a) :
    GivesBack (list decoder) (fun as => .array (as.map encode)) as := by
  intro hw
  refine ⟨nofun, fun d hd => ?_⟩
  obtain ⟨d', rfl, hdepth⟩ := depth_array_le.1 hd
  rw [isWhole_array, List.forall_mem_map] at hw
  rw [List.forall_mem_map] at hdepth
  rw [Value.tree, itemTrees_eq_map, List.map_map]
  exact mapM_map fun a ha => (h a ha (hw a ha)).2 d' (hdepth a ha)

end Decoder

end MarkdownPrep.Json
