import MarkdownPrep.Proofs.Json.Decoded

/-!
# The fields that are given

An object gives those fields of a structure of which it has a member that is not null, and an array
those at whose places it has an item that is not null (`Tree.Gives`). These are the fields that are
there when the structure is decoded (`Fields.isSome_iff_gives`).
-/

namespace MarkdownPrep.Json

/-- The tree of a structure with the field names `names` gives the field `name`. -/
def Tree.Gives (names : List Text) (name : Text) : Tree → Prop
  | .object ms => ∃ m ∈ ms, Glyph.text? m.1 = some name ∧ m.2 ≠ .null
  | .array ts => ∃ t ∈ ts[names.idxOf name]?, t ≠ .null
  | _ => False

namespace Fields

variable {names : List Text} {name : Text}

/-- What is found under a known name is the one member with this name. -/
theorem lookup_ofMembers? {ms : List (List Glyph × Tree)} {given : List (Text × Tree)}
    (h : ofMembers? names ms = some given) (hname : name ∈ names) (t : Tree) :
    given.lookup name = some t ↔ ∃ m ∈ ms, Glyph.text? m.1 = some name ∧ m.2 = t := by
  induction ms generalizing given with
  | nil =>
    cases h
    exact iff_of_false nofun nofun
  | cons m ms ih =>
    obtain ⟨key, hkey, h⟩ := Option.bind_eq_some_iff.1 h
    obtain ⟨rest, hrest, h⟩ := Option.bind_eq_some_iff.1 h
    have ih := ih hrest
    rw [List.exists_mem_cons_iff]
    split at h
    · next hunknown =>
      cases h
      have hne : ¬ Glyph.text? m.1 = some name := by
        rintro hm
        rw [hkey] at hm
        cases hm
        simp [hname] at hunknown
      rw [ih]
      exact ⟨.inr, fun hm => hm.resolve_left fun hm => hne hm.1⟩
    · split at h
      · cases h
      · next hnew =>
        cases h
        by_cases heq : name = key
        · subst heq
          -- no later member has this name, as it would have been found in the rest
          have hlater : ¬ ∃ m ∈ ms, Glyph.text? m.1 = some name ∧ m.2 = t := fun hm => by
            rw [← ih] at hm
            simp [hm] at hnew
          simp [List.lookup_cons_self, hkey, hlater]
        · have hlookup : List.lookup name ((key, m.2) :: rest) = rest.lookup name := by
            rw [List.lookup_cons, beq_false_of_ne heq]
          rw [hlookup, ih, hkey]
          simp [Ne.symm heq]

/-- What is found under a name when items stand for fields is the item at the place of the name. -/
theorem lookup_zip (names : List Text) (ts : List Tree) (hname : name ∈ names) :
    (names.zip ts).lookup name = ts[names.idxOf name]? := by
  induction names generalizing ts with
  | nil => exact absurd hname List.not_mem_nil
  | cons first names ih =>
    cases ts with
    | nil => simp
    | cons t ts =>
      rw [List.zip_cons_cons, List.lookup_cons]
      by_cases heq : name = first
      · subst heq
        simp
      · have hrest : name ∈ names := (List.mem_cons.1 hname).resolve_left heq
        rw [beq_false_of_ne heq, List.idxOf_cons_ne _ (Ne.symm heq), List.getElem?_cons_succ]
        exact ih ts hrest

theorem exists_lookup_iff_gives {d : Nat} {t : Tree} {f : Fields}
    (h : decode names d t = some f) (hname : name ∈ names) :
    (∃ u, f.given.lookup name = some u ∧ u ≠ .null) ↔ t.Gives names name := by
  match d, t with
  | 0, _ => exact absurd h nofun
  | d + 1, .object ms =>
    obtain ⟨given, hgiven, rfl⟩ := Option.map_eq_some_iff.1 h
    simp only [lookup_ofMembers? hgiven hname, Tree.Gives]
    constructor
    · rintro ⟨u, ⟨m, hm, hkey, rfl⟩, hnull⟩
      exact ⟨m, hm, hkey, hnull⟩
    · rintro ⟨m, hm, hkey, hnull⟩
      exact ⟨m.2, ⟨m, hm, hkey, rfl⟩, hnull⟩
  | d + 1, .array ts =>
    rw [decode] at h
    split at h
    · cases h
      simp only [lookup_zip names ts hname, Tree.Gives, Option.mem_def]
    · cases h
  | d + 1, .null | d + 1, .bool _ | d + 1, .number _ | d + 1, .string _ => exact absurd h nofun

/-- **A field is there after decoding when the tree gives it.** -/
theorem isSome_iff_gives {α : Type} {d : Nat} {t : Tree} {f : Fields} {name : String}
    {decoder : Decoder α} {field : Option α} (h : decode names d t = some f)
    (hname : name.toList ∈ names) (hfield : f.get? name decoder = some field) :
    field.isSome ↔ t.Gives names name.toList := by
  rw [← exists_lookup_iff_gives h hname]
  rw [get?, get] at hfield
  split at hfield
  · next u hu =>
    by_cases hnull : u = .null
    · subst hnull
      cases hfield
      simp [hu]
    · rw [Decoder.optional_of_ne_null hnull] at hfield
      obtain ⟨a, -, rfl⟩ := Option.map_eq_some_iff.1 hfield
      simp [hu, hnull]
  · next hmissing =>
    cases hfield
    simp [hmissing]

end Fields

end MarkdownPrep.Json
