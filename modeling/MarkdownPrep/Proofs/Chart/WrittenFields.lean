import Mathlib.Data.List.Forall2
import MarkdownPrep.Chart.Encode
import MarkdownPrep.Proofs.Json.GivesBack

/-!
# Fields of written structures

A structure is encoded as the members of those of its fields that are given, in the order of its
field names (`IsLayout`). Decoding finds every one of them again under its name, and nothing under
the names of the others (`bind_get?_given`).
-/

namespace MarkdownPrep.Chart

open Json

/-- What may stand for the field `name` among the members of a structure. -/
def IsMember (name : Text) (m : Option (Text × Value)) : Prop := ∀ e ∈ m, e.1 = name

theorem isMember_member {α : Type} (name : String) (encode : α → Value) (field : Option α) :
    IsMember name.toList (member name encode field) := by
  intro e he
  obtain ⟨a, _, rfl⟩ := Option.map_eq_some_iff.1 he
  rfl

theorem isWhole_ofMembers {members : List (Option (Text × Value))} :
    (Value.ofMembers members).isWhole ↔ ∀ m ∈ members, ∀ e ∈ m, e.2.isWhole := by
  rw [Value.ofMembers, isWhole_object]
  constructor
  · exact fun h m hm e he => h e (List.mem_filterMap.2 ⟨m, hm, he⟩)
  · intro h e he
    obtain ⟨m, hm, hm'⟩ := List.mem_filterMap.1 he
    exact h m hm e hm'

theorem isWhole_member {α : Type} {name : String} {encode : α → Value} {field : Option α} :
    (∀ e ∈ member name encode field, e.2.isWhole) ↔ ∀ a ∈ field, (encode a).isWhole := by
  cases field with
  | none => exact iff_of_true nofun nofun
  | some a =>
    constructor
    · rintro h _ ⟨⟩
      exact h _ rfl
    · rintro h _ ⟨⟩
      exact h a rfl

/-- The members of a structure, one for each field name, where they are there. -/
structure IsLayout (names : List Text) (members : List (Option (Text × Value))) : Prop where
  nodup : names.Nodup
  named : List.Forall₂ IsMember names members

/-- The fields that are found in the tree of an encoded structure. -/
def given (members : List (Option (Text × Value))) : List (Text × Tree) :=
  (members.filterMap id).map fun e => (e.1, e.2.tree)

namespace IsLayout

variable {names : List Text} {members : List (Option (Text × Value))}

theorem keys_sublist (h : List.Forall₂ IsMember names members) :
    ((members.filterMap id).map Prod.fst).Sublist names := by
  induction h with
  | nil => exact List.Sublist.slnil
  | @cons name m names members hm _ ih =>
    cases m with
    | none => exact ih.cons name
    | some e =>
      obtain rfl := hm e rfl
      exact ih.cons_cons e.1

theorem lookup_given_of_not_mem (h : List.Forall₂ IsMember names members) {name : Text}
    (hname : name ∉ names) : (given members).lookup name = none := by
  have hkeys : (given members).map Prod.fst = (members.filterMap id).map Prod.fst :=
    List.map_map
  rw [List.lookup_eq_none_iff]
  rintro ⟨k, t⟩ he
  have hk : k ∈ names := (keys_sublist h).subset (hkeys ▸ List.mem_map_of_mem he)
  exact bne_iff_ne.2 fun heq : name = k => hname (heq ▸ hk)

/-- What is found under the name of a field. -/
theorem lookup_given (h : IsLayout names members) {name : Text} {m : Option (Text × Value)}
    (hm : (name, m) ∈ names.zip members) :
    (given members).lookup name = m.map fun e => e.2.tree := by
  obtain ⟨hnodup, hnamed⟩ := h
  -- All names differ, so a member that is skipped is never the one that is looked for, and where
  -- the member is missing no later one stands in for it.
  induction hnamed with
  | nil => exact absurd hm List.not_mem_nil
  | @cons first m' names members hfirst hrest ih =>
    obtain ⟨hnew, hothers⟩ := List.nodup_cons.1 hnodup
    rcases List.mem_cons.1 hm with heq | htail
    · cases heq
      cases m with
      | none => exact lookup_given_of_not_mem hrest hnew
      | some e =>
        obtain rfl := hfirst e rfl
        exact List.lookup_cons_self
    · have hne : name ≠ first := fun heq => hnew (heq ▸ (List.of_mem_zip htail).1)
      cases m' with
      | none => exact ih htail hothers
      | some e =>
        obtain rfl := hfirst e rfl
        rw [← ih htail hothers]
        exact (List.lookup_cons).trans (by rw [beq_false_of_ne hne]; rfl)

theorem ofMembers?_memberTrees {ms : List (Text × Value)} (hkeys : (ms.map Prod.fst).Nodup)
    (hnames : ∀ k ∈ ms.map Prod.fst, k ∈ names) :
    Fields.ofMembers? names (memberTrees ms) = some (ms.map fun e => (e.1, e.2.tree)) := by
  induction ms with
  | nil => rfl
  | cons e ms ih =>
    obtain ⟨k, v⟩ := e
    rw [List.map_cons] at hkeys hnames
    obtain ⟨hnew, hkeys⟩ := List.nodup_cons.1 hkeys
    rw [List.forall_mem_cons] at hnames
    have hknown : (!names.contains k) = false := by
      simpa using hnames.1
    have honce : ((ms.map fun e => (e.1, e.2.tree)).lookup k).isSome = false := by
      rw [Option.isSome_eq_false_iff, Option.isNone_iff_eq_none, List.lookup_eq_none_iff]
      rintro ⟨k', t⟩ he
      obtain ⟨e, hmem, heq⟩ := List.mem_map.1 he
      cases heq
      exact bne_iff_ne.2 fun heq : k = e.1 => hnew (List.mem_map.2 ⟨e, hmem, heq.symm⟩)
    rw [memberTrees, Fields.ofMembers?, Glyph.text?_map_ofChar, ih hkeys hnames.2]
    simp only [Option.bind_eq_bind, Option.bind_some, hknown, honce, Bool.false_eq_true, if_false]
    rfl

/-- The tree of an encoded structure decodes to its fields. -/
theorem decode_ofMembers (h : IsLayout names members) (d : Nat) :
    Fields.decode names (d + 1) (Value.ofMembers members).tree = some ⟨d, given members⟩ := by
  have hkeys := keys_sublist h.named
  have hfields := ofMembers?_memberTrees (hkeys.nodup h.nodup) hkeys.subset
  simp only [Value.ofMembers, Value.tree, Fields.decode, hfields, Option.map_some]
  rfl

section Field

variable {α : Type} {name : String} {decoder : Decoder α} {encode : α → Value}
  {d : Nat} (h : IsLayout names members) (hw : (Value.ofMembers members).isWhole)
  (hd : (Value.ofMembers members).depth ≤ d + 1) (i : Nat)
include hw hd

theorem decoder_given {a : α}
    (hi : (names.zip members)[i]? = some (name.toList, member name encode (some a)))
    (hback : Decoder.GivesBack decoder encode a) :
    (encode a).tree ≠ .null ∧ decoder d (encode a).tree = some a := by
  have hmem : (name.toList, encode a) ∈ members.filterMap id :=
    List.mem_filterMap.2 ⟨_, (List.of_mem_zip (List.mem_of_getElem? hi)).2, rfl⟩
  obtain ⟨d', hd', hdepth⟩ := depth_object_le.1 hd
  obtain rfl := Nat.succ.inj hd'
  exact (hback (isWhole_object.1 hw _ hmem)).imp_right fun hread => hread d (hdepth _ hmem)

include h

/-- **A field that was written is read back**, and reading goes on with it. -/
theorem bind_get?_given {field : Option α}
    (hi : (names.zip members)[i]? = some (name.toList, member name encode field))
    (hback : ∀ a ∈ field, Decoder.GivesBack decoder encode a) {β : Type} {b : β}
    {next : Option α → Option β} (hnext : next field = some b) :
    ((Fields.mk d (given members)).get? name decoder >>= next) = some b := by
  have hfield : (Fields.mk d (given members)).get? name decoder = some field := by
    rw [Fields.get?, Fields.get, h.lookup_given (List.mem_of_getElem? hi)]
    cases field with
    | none => rfl
    | some a =>
      obtain ⟨hnull, hread⟩ := decoder_given hw hd i hi (hback a rfl)
      exact (Decoder.optional_of_ne_null hnull).trans (by rw [hread]; rfl)
  rw [hfield]
  exact hnext

/-- A field that is always written is read back. -/
theorem bind_get_given {a : α}
    (hi : (names.zip members)[i]? = some (name.toList, member name encode (some a)))
    (hback : Decoder.GivesBack decoder encode a) {β : Type} {b : β} {default : α}
    {next : α → Option β} (hnext : next a = some b) :
    ((Fields.mk d (given members)).get name decoder default >>= next) = some b := by
  have hfield : (Fields.mk d (given members)).get name decoder default = some a := by
    rw [Fields.get, h.lookup_given (List.mem_of_getElem? hi)]
    exact (decoder_given hw hd i hi hback).2
  rw [hfield]
  exact hnext

end Field

end IsLayout

end MarkdownPrep.Chart
