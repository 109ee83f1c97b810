import MarkdownPrep.Proofs.Binary64.Nearest
import MarkdownPrep.Proofs.Json.GivenFields
import MarkdownPrep.Proofs.Json.Items

/-!
# Shapes of documents

A shape says of trees, without decoding them, which of them a decoder takes (`Decoder.Accepts`). The
shape of a structure is made from the shapes of its fields (`Shape.fields`), and a decoder that
reads the fields one after the other takes the trees of this shape (`Fields.accepts_decode`).
-/

namespace MarkdownPrep.Json

/-- The trees of a shape, given the number of levels of arrays and objects that they may have. -/
abbrev Shape := Nat → Tree → Prop

/-- A string that is a text: none of its surrogates is alone. -/
def IsText (gs : List Glyph) : Prop := (Glyph.text? gs).isSome

/-- A literal of a finite number. -/
def Literal.IsFinite (l : Literal) : Prop := l.number?.isSome

/-- A tree of any shape whose strings are texts and whose numbers are finite. -/
inductive IsValue : Shape
  | null {d : Nat} : IsValue d .null
  | bool {d : Nat} (b : Bool) : IsValue d (.bool b)
  | number {d : Nat} {l : Literal} (h : l.IsFinite) : IsValue d (.number l)
  | string {d : Nat} {gs : List Glyph} (h : IsText gs) : IsValue d (.string gs)
  | array {d : Nat} {ts : List Tree} (h : ∀ t ∈ ts, IsValue d t) : IsValue (d + 1) (.array ts)
  | object {d : Nat} {ms : List (List Glyph × Tree)} (hkeys : ∀ m ∈ ms, IsText m.1)
    (h : ∀ m ∈ ms, IsValue d m.2) : IsValue (d + 1) (.object ms)

namespace Shape

/-- An object of any members. -/
def record : Shape := fun d t => (∃ ms, t = .object ms) ∧ IsValue d t

/-- A string. -/
def text : Shape := fun _ t => ∃ gs, t = .string gs ∧ IsText gs

/-- True or false. -/
def bool : Shape := fun _ t => ∃ b, t = .bool b

/-- A number. -/
def float : Shape := fun _ t => ∃ l, t = .number l ∧ l.IsFinite

/-- A whole number of 32 bits without sign. -/
def nat32 : Shape := fun _ t =>
  ∃ l n, t = .number l ∧ l.number? = some (.int n) ∧ 0 ≤ n ∧ n < 2 ^ 32

/-- An array of items of a shape. -/
def list (shape : Shape) : Shape := fun d t =>
  ∃ d' ts, d = d' + 1 ∧ t = .array ts ∧ ∀ u ∈ ts, shape d' u

/-- Null, or a tree of a shape. -/
def optional (shape : Shape) : Shape := fun d t => t = .null ∨ shape d t

/-- One of some names, or an object with the name and null. -/
def named {α : Type} (values : List (Text × α)) : Shape := fun d t =>
  ∃ gs name, Glyph.text? gs = some name ∧ name ∈ values.map Prod.fst ∧
    (t = .string gs ∨ 0 < d ∧ t = .object [(gs, .null)])

/-- A structure with the fields `table`: an object in which every key is a text, no field is given
twice and each field that is given has its shape, or an array of fields in order, of which the last
may be missing. -/
def fields (table : List (Text × Shape)) : Shape
  | d + 1, .object ms =>
    (∀ m ∈ ms, IsText m.1) ∧
      ms.Pairwise (fun m m' => ∀ e ∈ table, Glyph.text? m.1 = some e.1 →
        Glyph.text? m'.1 ≠ some e.1) ∧
      ∀ e ∈ table, ∀ m ∈ ms, Glyph.text? m.1 = some e.1 → e.2 d m.2
  | d + 1, .array ts => ts.length ≤ table.length ∧ ∀ p ∈ table.zip ts, p.1.2 d p.2
  | _, _ => False

end Shape

/-- A decoder decodes the trees of a shape and no others. -/
def Decoder.Accepts {α : Type} (decoder : Decoder α) (shape : Shape) : Prop :=
  ∀ d t, (decoder d t).isSome ↔ shape d t

/-! ## Values -/

namespace Decoder

mutual

theorem isSome_value_iff : ∀ (t : Tree) (d : Nat), (value t d).isSome ↔ IsValue d t
  | .null, _ => iff_of_true rfl .null
  | .bool b, _ => iff_of_true rfl (.bool b)
  | .number l, _ => by
    rw [value, Option.isSome_map]
    exact ⟨.number, fun | .number h => h⟩
  | .string gs, _ => by
    rw [value, Option.isSome_map]
    exact ⟨.string, fun | .string h => h⟩
  | .array _, 0 => iff_of_false nofun nofun
  | .array ts, d + 1 => by
    rw [value, Option.isSome_map, isSome_values_iff ts d]
    exact ⟨.array, fun | .array h => h⟩
  | .object _, 0 => iff_of_false nofun nofun
  | .object ms, d + 1 => by
    rw [value, Option.isSome_map, isSome_members_iff ms d]
    exact ⟨fun h => .object (fun m hm => (h m hm).1) fun m hm => (h m hm).2,
      fun | .object hkeys h => fun m hm => ⟨hkeys m hm, h m hm⟩⟩

theorem isSome_values_iff :
    ∀ (ts : List Tree) (d : Nat), (values ts d).isSome ↔ ∀ t ∈ ts, IsValue d t
  | [], _ => iff_of_true rfl nofun
  | t :: ts, d => by
    rw [List.forall_mem_cons, ← isSome_value_iff t d, ← isSome_values_iff ts d, values]
    cases value t d <;> cases values ts d <;> simp

theorem isSome_members_iff :
    ∀ (ms : List (List Glyph × Tree)) (d : Nat),
      (members ms d).isSome ↔ ∀ m ∈ ms, IsText m.1 ∧ IsValue d m.2
  | [], _ => iff_of_true rfl nofun
  | (k, t) :: ms, d => by
    rw [List.forall_mem_cons, ← isSome_value_iff t d, ← isSome_members_iff ms d, members, IsText]
    cases Glyph.text? k <;> cases value t d <;> cases members ms d <;> simp

end

theorem accepts_anyValue : anyValue.Accepts IsValue := fun d t => isSome_value_iff t d

theorem accepts_record : record.Accepts Shape.record := by
  intro d t
  rw [Shape.record, ← isSome_value_iff]
  match d, t with
  | 0, .object ms => exact iff_of_false nofun fun h => absurd h.2 nofun
  | 0, .null | 0, .bool _ | 0, .number _ | 0, .string _ | 0, .array _ | d + 1, .null
  | d + 1, .bool _ | d + 1, .number _ | d + 1, .string _ | d + 1, .array _ =>
    exact iff_of_false nofun fun h => absurd h.1 nofun
  | d + 1, .object ms => simp [record, value]

theorem accepts_text : text.Accepts Shape.text := by
  intro d t
  cases t <;> simp [text, Shape.text, IsText]

theorem accepts_bool : bool.Accepts Shape.bool := by
  intro d t
  cases t <;> simp [bool, Shape.bool]

end Decoder

/-- The whole numbers of 64 bits have a finite number that is nearest to them. -/
theorem isSome_toBinary64? {l : Literal} {n : Number} (h : l.number? = some n) :
    n.toBinary64?.isSome := by
  cases n with
  | float x => rfl
  | int n =>
    obtain ⟨hleast, hgreatest⟩ := Literal.fits_of_number? h
    have hfinite : Binary64.nearestCode n.natAbs 1 < Binary64.codes := by
      have hbound : n.natAbs * 1 ≤ 2 ^ 64 * 1 := by omega
      exact (Binary64.nearestCode_mono Nat.one_pos Nat.one_pos hbound).trans_lt (by decide +kernel)
    rw [Number.toBinary64?, Option.isSome_map, Binary64.ofNat?, Binary64.ofRatio?, dif_pos hfinite]
    rfl

namespace Decoder

theorem accepts_float : float.Accepts Shape.float := by
  intro d t
  cases t with
  | number l =>
    simp only [float, Shape.float, Literal.IsFinite]
    cases hl : l.number? with
    | none => simp [hl]
    | some n => simp [hl, isSome_toBinary64? hl]
  | null | bool | string | array | object => exact iff_of_false nofun nofun

theorem accepts_nat32 : nat32.Accepts Shape.nat32 := by
  intro d t
  cases t with
  | null | bool | string | array | object => exact iff_of_false nofun nofun
  | number l =>
    simp only [nat32, Shape.nat32, Tree.number.injEq, exists_eq_left', exists_and_left]
    cases hl : l.number? with
    | none => simp
    | some n =>
      cases n with
      | float x => simp
      | int n =>
        simp [Option.isSome_ite]

variable {α : Type} {decoder : Decoder α} {shape : Shape}

theorem accepts_list (h : decoder.Accepts shape) : (list decoder).Accepts (.list shape) := by
  intro d t
  match d, t with
  | d + 1, .array ts =>
    have hitems : (ts.mapM (decoder d)).isSome ↔ ∀ u ∈ ts, shape d u := by
      simp only [isSome_mapM_iff, h d]
    rw [list, hitems]
    exact ⟨fun h => ⟨d, ts, rfl, rfl, h⟩, fun ⟨_, _, hd, ht, h⟩ => by cases hd; cases ht; exact h⟩
  | 0, _ => exact iff_of_false nofun fun ⟨_, _, hd, _⟩ => absurd hd nofun
  | d + 1, .null | d + 1, .bool _ | d + 1, .number _ | d + 1, .string _ | d + 1, .object _ =>
    exact iff_of_false nofun fun ⟨_, _, _, ht, _⟩ => absurd ht nofun

theorem accepts_optional (h : decoder.Accepts shape) :
    (optional decoder).Accepts (.optional shape) := by
  intro d t
  by_cases ht : t = .null
  · subst ht
    exact iff_of_true rfl (.inl rfl)
  · rw [optional_of_ne_null ht, Option.isSome_map, h d t, Shape.optional, or_iff_right ht]

theorem accepts_named (values : List (Text × α)) : (named values).Accepts (.named values) := by
  have hname (gs : List Glyph) : ((Glyph.text? gs).bind (values.lookup ·)).isSome ↔
      ∃ name, Glyph.text? gs = some name ∧ name ∈ values.map Prod.fst := by
    cases Glyph.text? gs <;> simp [List.lookup_isSome_iff]
  intro d t
  match d, t with
  | d, .string gs =>
    rw [named, hname]
    constructor
    · rintro ⟨name, hgs, hmem⟩
      exact ⟨gs, name, hgs, hmem, .inl rfl⟩
    · rintro ⟨_, name, hgs, hmem, heq | ⟨-, heq⟩⟩
      · cases heq
        exact ⟨name, hgs, hmem⟩
      · cases heq
  | d + 1, .object [(k, .null)] =>
    rw [named, hname]
    constructor
    · rintro ⟨name, hgs, hmem⟩
      exact ⟨k, name, hgs, hmem, .inr ⟨Nat.succ_pos _, rfl⟩⟩
    · rintro ⟨_, name, hgs, hmem, heq | ⟨-, heq⟩⟩
      · cases heq
      · cases heq
        exact ⟨name, hgs, hmem⟩
  | 0, .object ms =>
    refine iff_of_false (by simp [named]) ?_
    rintro ⟨_, _, -, -, heq | ⟨hd, -⟩⟩
    · cases heq
    · exact absurd hd (Nat.lt_irrefl 0)
  | _, .null | _, .bool _ | _, .number _ | _, .array _ | d + 1, .object []
  | d + 1, .object [(_, .bool _)] | d + 1, .object [(_, .number _)]
  | d + 1, .object [(_, .string _)] | d + 1, .object [(_, .array _)]
  | d + 1, .object [(_, .object _)] | d + 1, .object (_ :: _ :: _) =>
    refine iff_of_false (by simp [named]) ?_
    rintro ⟨_, _, -, -, heq | ⟨-, heq⟩⟩ <;> cases heq

end Decoder

/-! ## Structures -/

namespace Fields

variable {α β : Type} {table : List (Text × Shape)}

theorem isSome_ofMembers?_iff (names : List Text) (ms : List (List Glyph × Tree)) :
    (ofMembers? names ms).isSome ↔ (∀ m ∈ ms, IsText m.1) ∧ ms.Pairwise fun m m' =>
      ∀ name ∈ names, Glyph.text? m.1 = some name → Glyph.text? m'.1 ≠ some name := by
  induction ms with
  | nil => simp [ofMembers?]
  | cons m ms ih =>
    obtain ⟨k, t⟩ := m
    rw [ofMembers?, List.forall_mem_cons, List.pairwise_cons, IsText]
    cases hk : Glyph.text? k with
    | none => simp
    | some key =>
      cases hrest : ofMembers? names ms with
      | none =>
        have hnot := mt ih.2 (by simp [hrest])
        exact iff_of_false nofun fun h => hnot ⟨h.1.2, h.2.2⟩
      | some rest =>
        obtain ⟨htexts, hpairs⟩ := ih.1 (by simp [hrest])
        -- a known key is new if and only if no later member has it
        have hlookup (hkey : key ∈ names) :
            (rest.lookup key).isSome ↔ ∃ m' ∈ ms, Glyph.text? m'.1 = some key := by
          simp only [Option.isSome_iff_exists, lookup_ofMembers? hrest hkey]
          exact ⟨fun ⟨_, m', hm', hkey', _⟩ => ⟨m', hm', hkey'⟩,
            fun ⟨m', hm', hkey'⟩ => ⟨m'.2, m', hm', hkey', rfl⟩⟩
        have hstep : (ofMembers? names ((k, t) :: ms)).isSome ↔
            ¬ (key ∈ names ∧ (rest.lookup key).isSome) := by
          by_cases hkey : key ∈ names <;> by_cases hold : (rest.lookup key).isSome <;>
            simp [ofMembers?, hk, hrest, hkey, hold]
        rw [ofMembers?, hk, hrest] at hstep
        rw [hstep]
        constructor
        · intro hnew
          refine ⟨⟨rfl, htexts⟩, fun m' hm' name hname hkey hm'name => hnew ?_, hpairs⟩
          cases hkey
          exact ⟨hname, (hlookup hname).2 ⟨m', hm', hm'name⟩⟩
        · rintro ⟨-, hnew, -⟩ ⟨hkey, hold⟩
          obtain ⟨m', hm', hm'key⟩ := (hlookup hkey).1 hold
          exact hnew m' hm' key hkey rfl hm'key

theorem forall_lookup_zip_iff (hnodup : (table.map Prod.fst).Nodup) (ts : List Tree) (d : Nat) :
    (∀ e ∈ table, ∀ t, ((table.map Prod.fst).zip ts).lookup e.1 = some t → e.2 d t) ↔
      ∀ p ∈ table.zip ts, p.1.2 d p.2 := by
  induction table generalizing ts with
  | nil => simp
  | cons e table ih =>
    cases ts with
    | nil => simp
    | cons t ts =>
      obtain ⟨hnew, hnodup⟩ := List.nodup_cons.1 hnodup
      rw [List.map_cons, List.zip_cons_cons, List.zip_cons_cons, List.forall_mem_cons,
        List.forall_mem_cons, ← ih hnodup]
      refine and_congr (by simp) (forall₂_congr fun e' he' => ?_)
      have hne : e'.1 ≠ e.1 := fun heq => hnew (heq ▸ List.mem_map_of_mem he')
      rw [List.lookup_cons, beq_false_of_ne hne]

/-- The fields `table` are read one after the other: all that are given must have their shapes. -/
def Reads (read : Fields → Option α) (table : List (Text × Shape)) : Prop :=
  ∀ f : Fields, (read f).isSome ↔ ∀ e ∈ table, ∀ t, f.given.lookup e.1 = some t → e.2 f.depth t

theorem reads_some (a : Fields → α) : Reads (fun f => some (a f)) [] :=
  fun _ => iff_of_true rfl nofun

theorem reads_get {name : String} {decoder : Decoder α} {shape : Shape} {default : α}
    {rest : α → Fields → Option β} (h : decoder.Accepts shape) (hrest : ∀ a, Reads (rest a) table) :
    Reads (fun f => f.get name decoder default >>= fun a => rest a f)
      ((name.toList, shape) :: table) := by
  intro f
  have hfield : (f.get name decoder default).isSome ↔
      ∀ t, f.given.lookup name.toList = some t → shape f.depth t := by
    rw [get]
    cases f.given.lookup name.toList with
    | none => simp
    | some t => simpa using h f.depth t
  rw [List.forall_mem_cons, ← hfield]
  cases hget : f.get name decoder default with
  | none => simp [hget]
  | some a => simpa [hget] using hrest a f

theorem reads_get? {name : String} {decoder : Decoder α} {shape : Shape}
    {rest : Option α → Fields → Option β} (h : decoder.Accepts shape)
    (hrest : ∀ a, Reads (rest a) table) :
    Reads (fun f => f.get? name decoder >>= fun a => rest a f)
      ((name.toList, .optional shape) :: table) := reads_get (Decoder.accepts_optional h) hrest

/-- **A structure is decoded from the trees of its shape** and no others. -/
theorem accepts_decode {read : Fields → Option α} (hnodup : (table.map Prod.fst).Nodup)
    (hread : Reads read table) :
    Decoder.Accepts (fun d t => decode (table.map Prod.fst) d t >>= read) (.fields table) := by
  intro d t
  match d, t with
  | 0, _ => exact iff_of_false nofun nofun
  | d + 1, .null | d + 1, .bool _ | d + 1, .number _ | d + 1, .string _ =>
    exact iff_of_false nofun nofun
  | d + 1, .object ms =>
    have hgiven := isSome_ofMembers?_iff (table.map Prod.fst) ms
    rw [Shape.fields, ← and_assoc]
    simp only [List.forall_mem_map] at hgiven
    rw [← hgiven]
    cases hms : ofMembers? (table.map Prod.fst) ms with
    | none => simp [decode, hms]
    | some given =>
      have hread := hread ⟨d, given⟩
      have hlookup {e : Text × Shape} (he : e ∈ table) (u : Tree) :
          given.lookup e.1 = some u ↔ ∃ m ∈ ms, Glyph.text? m.1 = some e.1 ∧ m.2 = u :=
        lookup_ofMembers? hms (List.mem_map_of_mem he) u
      simp only [decode, hms, Option.map_some, Option.bind_eq_bind, Option.bind_some, hread]
      constructor
      · intro h
        exact ⟨rfl, fun e he m hm hkey => h e he m.2 ((hlookup he m.2).2 ⟨m, hm, hkey, rfl⟩)⟩
      · rintro ⟨-, h⟩ e he u hu
        obtain ⟨m, hm, hkey, rfl⟩ := (hlookup he u).1 hu
        exact h e he m hm hkey
  | d + 1, .array ts =>
    rw [Shape.fields, ← forall_lookup_zip_iff hnodup]
    by_cases hlength : ts.length ≤ table.length
    · have hread := hread ⟨d, (table.map Prod.fst).zip ts⟩
      simpa [decode, hlength] using hread
    · simp [decode, hlength]

end Fields

end MarkdownPrep.Json
