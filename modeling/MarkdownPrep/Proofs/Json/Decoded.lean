import MarkdownPrep.Proofs.Json.GivesBack

/-!
# What decoding gives

Every value that is decoded is canonical, and every decoded row of data has every key once
(`canonical_of_value`, `isRecord_of_record`).
-/

namespace MarkdownPrep.Json

namespace Decoder

mutual

/-- A decoded value is canonical. -/
theorem canonical_of_value :
    ∀ {t : Tree} {d : Nat} {v : Value}, value t d = some v → v.Canonical
  | .null, _, _, h => by
    cases h
    exact .null
  | .bool b, _, _, h => by
    cases h
    exact .bool b
  | .number _, _, _, h => by
    obtain ⟨n, hn, rfl⟩ := Option.map_eq_some_iff.1 h
    cases n with
    | int n => exact .int (Literal.fits_of_number? hn)
    | float x => exact .float x
  | .string _, _, _, h => by
    obtain ⟨s, _, rfl⟩ := Option.map_eq_some_iff.1 h
    exact .string s
  | .array _, 0, _, h => nomatch h
  | .array _, _ + 1, _, h => by
    obtain ⟨vs, hvs, rfl⟩ := Option.map_eq_some_iff.1 h
    exact .array (canonical_of_values hvs)
  | .object _, 0, _, h => nomatch h
  | .object _, _ + 1, _, h => by
    obtain ⟨ms, hms, rfl⟩ := Option.map_eq_some_iff.1 h
    exact .object (sorted_foldl_insertSorted ms List.Pairwise.nil) fun m hm =>
      canonical_of_members hms m (mem_of_mem_foldl_insertSorted hm)

theorem canonical_of_values :
    ∀ {ts : List Tree} {d : Nat} {vs : List Value}, values ts d = some vs → ∀ v ∈ vs, v.Canonical
  | [], _, _, h => by
    cases h
    exact nofun
  | _ :: _, _, _, h => by
    obtain ⟨v, hv, h⟩ := Option.bind_eq_some_iff.1 h
    obtain ⟨vs, hvs, heq⟩ := Option.bind_eq_some_iff.1 h
    cases heq
    exact List.forall_mem_cons.2 ⟨canonical_of_value hv, canonical_of_values hvs⟩

theorem canonical_of_members :
    ∀ {ms : List (List Glyph × Tree)} {d : Nat} {es : List (Text × Value)},
      members ms d = some es → ∀ e ∈ es, e.2.Canonical
  | [], _, _, h => by
    cases h
    exact nofun
  | _ :: _, _, _, h => by
    obtain ⟨key, _, h⟩ := Option.bind_eq_some_iff.1 h
    obtain ⟨v, hv, h⟩ := Option.bind_eq_some_iff.1 h
    obtain ⟨es, hes, heq⟩ := Option.bind_eq_some_iff.1 h
    cases heq
    exact List.forall_mem_cons.2 ⟨canonical_of_value hv, canonical_of_members hes⟩

end

/-- Only null decodes to null. -/
theorem ne_null_of_value {t : Tree} {d : Nat} {v : Value} (h : value t d = some v)
    (ht : t ≠ .null) : v ≠ .null := by
  rintro rfl
  match t, d with
  | .null, _ => exact ht rfl
  | .bool _, _ => exact absurd h nofun
  | .number _, _ | .string _, _ | .array _, _ + 1 | .object _, _ + 1 =>
    obtain ⟨_, _, heq⟩ := Option.map_eq_some_iff.1 h
    cases heq
  | .array _, 0 | .object _, 0 => exact absurd h nofun

theorem isRecord_of_members {ms : List (Text × Value)} (h : ∀ m ∈ ms, m.2.Canonical) :
    IsRecord (ms.foldl (fun seen m => insertLast m.1 m.2 seen) []) :=
  List.foldlRecOn ms _ IsRecord.nil fun _ hr m hm => hr.insertLast m.1 (h m hm)

/-- A decoded row of data has every key once. -/
theorem isRecord_of_record {t : Tree} {d : Nat} {r : List (Text × Value)}
    (h : record d t = some r) : IsRecord r := by
  match d, t with
  | 0, _ => exact absurd h nofun
  | d + 1, .object ms =>
    obtain ⟨es, hes, rfl⟩ := Option.map_eq_some_iff.1 h
    exact isRecord_of_members (canonical_of_members hes)
  | d + 1, .null | d + 1, .bool _ | d + 1, .number _ | d + 1, .string _ | d + 1, .array _ =>
    exact absurd h nofun

/-- What a decoder gives. -/
def Yields {α : Type} (decoder : Decoder α) (P : α → Prop) : Prop :=
  ∀ d t a, decoder d t = some a → P a

theorem yields_list {α : Type} {decoder : Decoder α} {P : α → Prop} (h : Yields decoder P) :
    Yields (list decoder) fun as => ∀ a ∈ as, P a := by
  intro d t as has
  match d, t with
  | 0, _ => exact absurd has nofun
  | d + 1, .array ts =>
    have hall : ∀ {ts : List Tree} {as : List α},
        ts.mapM (decoder d) = some as → ∀ a ∈ as, P a := by
      intro ts
      induction ts with
      | nil =>
        intro as has
        cases has
        exact nofun
      | cons t ts ih =>
        intro as has
        rw [List.mapM_cons] at has
        obtain ⟨a, ha, has⟩ := Option.bind_eq_some_iff.1 has
        obtain ⟨bs, hbs, heq⟩ := Option.bind_eq_some_iff.1 has
        cases heq
        exact List.forall_mem_cons.2 ⟨h d t a ha, ih hbs⟩
    exact hall has
  | d + 1, .null | d + 1, .bool _ | d + 1, .number _ | d + 1, .string _ | d + 1, .object _ =>
    exact absurd has nofun

end Decoder

namespace Fields

variable {α : Type} {f : Fields} {name : String} {decoder : Decoder α} {P : α → Prop}

theorem get_yields (h : decoder.Yields P) {default a : α} (hdefault : P default)
    (ha : f.get name decoder default = some a) : P a := by
  rw [get] at ha
  split at ha
  · exact h _ _ a ha
  · cases ha
    exact hdefault

/-- A field that is there was not null. -/
theorem exists_of_get? {a : α} (h : f.get? name decoder = some (some a)) :
    ∃ t, t ≠ .null ∧ decoder f.depth t = some a := by
  rw [get?, get] at h
  split at h
  · next t _ =>
    by_cases ht : t = .null
    · subst ht
      cases h
    · rw [Decoder.optional_of_ne_null ht] at h
      obtain ⟨b, hb, heq⟩ := Option.map_eq_some_iff.1 h
      cases heq
      exact ⟨t, ht, hb⟩
  · cases h

theorem get?_yields (h : decoder.Yields P) {field : Option α}
    (hf : f.get? name decoder = some field) : ∀ a ∈ field, P a := by
  rintro a rfl
  obtain ⟨t, _, ha⟩ := exists_of_get? hf
  exact h _ t a ha

end Fields

theorem read?_yields {α : Type} {decoder : Decoder α} {P : α → Prop} (h : decoder.Yields P)
    {s : Text} {a : α} (ha : read? decoder s = some a) : P a := by
  obtain ⟨t, _, ha⟩ := Option.bind_eq_some_iff.1 ha
  exact h _ t a ha

end MarkdownPrep.Json
