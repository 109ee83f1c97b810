import MarkdownPrep.Chart.Dialect
import MarkdownPrep.Proofs.Json.Decoded

/-!
# What chart blocks are read as

Whatever the dialect of a chart block, the rows of the description that is read have every column
once and hold canonical values, its reference lines stand at canonical values other than null, and
its numbers of decimal places fit into 32 bits (`isCanonical_of_read`).
-/

namespace MarkdownPrep.Chart

open Json

/-- A style whose numbers of decimal places fit into 32 bits. -/
structure NumberStyle.IsBounded (f : NumberStyle) : Prop where
  places : ∀ n ∈ f.places, n < 1 <<< 32
  leastPlaces : ∀ n ∈ f.leastPlaces, n < 1 <<< 32
  greatestPlaces : ∀ n ∈ f.greatestPlaces, n < 1 <<< 32

/-- A reference line at a place that is given by a canonical value other than null. -/
structure ReferenceLine.IsCanonical (l : ReferenceLine) : Prop where
  x : ∀ v ∈ l.x, v.Canonical ∧ v ≠ .null
  y : ∀ v ∈ l.y, v.Canonical ∧ v ≠ .null

/-- A description as it is read. -/
structure Description.IsCanonical (c : Description) : Prop where
  data : ∀ r ∈ c.data, IsRecord r
  referenceLines : ∀ ls ∈ c.referenceLines, ∀ l ∈ ls, l.IsCanonical
  numbers : ∀ f ∈ c.numbers, f.IsBounded

/-! ## From JSON -/

theorem yields_nat32 : Decoder.nat32.Yields (· < 1 <<< 32) := by
  intro d t n h
  cases t with
  | number l =>
    rw [Decoder.nat32] at h
    split at h
    · rcases ite_eq_iff.1 h with ⟨hn, heq⟩ | ⟨-, h⟩
      · cases heq
        rw [Bool.and_eq_true, decide_eq_true_iff, decide_eq_true_iff] at hn
        exact hn.2
      · cases h
    · cases h
  | null | bool | string | array | object => cases h

theorem NumberStyle.yields_decode : NumberStyle.decode.Yields NumberStyle.IsBounded := by
  intro d t f h
  iterate 3 obtain ⟨_, -, h⟩ := Option.bind_eq_some_iff.1 h
  obtain ⟨places, hplaces, h⟩ := Option.bind_eq_some_iff.1 h
  obtain ⟨least, hleast, h⟩ := Option.bind_eq_some_iff.1 h
  obtain ⟨greatest, hgreatest, h⟩ := Option.bind_eq_some_iff.1 h
  iterate 2 obtain ⟨_, -, h⟩ := Option.bind_eq_some_iff.1 h
  cases h
  exact ⟨Fields.get?_yields yields_nat32 hplaces, Fields.get?_yields yields_nat32 hleast,
    Fields.get?_yields yields_nat32 hgreatest⟩

theorem ReferenceLine.yields_decode : ReferenceLine.decode.Yields ReferenceLine.IsCanonical := by
  intro d t l h
  obtain ⟨fields, -, h⟩ := Option.bind_eq_some_iff.1 h
  obtain ⟨x, hx, h⟩ := Option.bind_eq_some_iff.1 h
  obtain ⟨y, hy, h⟩ := Option.bind_eq_some_iff.1 h
  iterate 4 obtain ⟨_, -, h⟩ := Option.bind_eq_some_iff.1 h
  cases h
  have hplace : ∀ {name : String} {field : Option Value},
      fields.get? name .anyValue = some field → ∀ v ∈ field, v.Canonical ∧ v ≠ .null := by
    rintro name _ hfield v rfl
    obtain ⟨t, ht, hv⟩ := Fields.exists_of_get? hfield
    exact ⟨Decoder.canonical_of_value hv, Decoder.ne_null_of_value hv ht⟩
  exact ⟨hplace hx, hplace hy⟩

theorem yields_records : (Decoder.list Decoder.record).Yields fun rows => ∀ r ∈ rows, IsRecord r :=
  Decoder.yields_list fun _ _ _ => Decoder.isRecord_of_record

theorem yields_referenceLines :
    (Decoder.list ReferenceLine.decode).Yields fun ls => ∀ l ∈ ls, l.IsCanonical :=
  Decoder.yields_list ReferenceLine.yields_decode

theorem Description.yields_decode : Description.decode.Yields Description.IsCanonical := by
  intro d t c h
  obtain ⟨fields, -, h⟩ := Option.bind_eq_some_iff.1 h
  obtain ⟨kind, -, h⟩ := Option.bind_eq_some_iff.1 h
  obtain ⟨data, hdata, h⟩ := Option.bind_eq_some_iff.1 h
  iterate 7 obtain ⟨_, -, h⟩ := Option.bind_eq_some_iff.1 h
  obtain ⟨lines, hlines, h⟩ := Option.bind_eq_some_iff.1 h
  obtain ⟨numbers, hnumbers, h⟩ := Option.bind_eq_some_iff.1 h
  iterate 8 obtain ⟨_, -, h⟩ := Option.bind_eq_some_iff.1 h
  cases h
  exact ⟨Fields.get_yields yields_records (List.forall_mem_nil _) hdata,
    Fields.get?_yields yields_referenceLines hlines,
    Fields.get?_yields NumberStyle.yields_decode hnumbers⟩

/-! ## From settings -/

/-- A setting of canonical parts. -/
def Setting.IsCanonical : Setting → Prop
  | .numbers f => f.IsBounded
  | .data rows => ∀ r ∈ rows, IsRecord r
  | .referenceLines ls => ∀ l ∈ ls, l.IsCanonical
  | _ => True

theorem NumberStyle.isBounded_default : ({} : NumberStyle).IsBounded := ⟨nofun, nofun, nofun⟩

theorem NumberStyle.IsBounded.merge {f other : NumberStyle} (hf : f.IsBounded)
    (hother : other.IsBounded) : (f.merge other).IsBounded := by
  have hmerged : ∀ {a b : Option Nat}, (∀ n ∈ a, n < 1 <<< 32) → (∀ n ∈ b, n < 1 <<< 32) →
      ∀ n ∈ a <|> b, n < 1 <<< 32 := by
    intro a b ha hb
    cases a with
    | none => exact hb
    | some n => exact ha
  exact ⟨hmerged hother.places hf.places, hmerged hother.leastPlaces hf.leastPlaces,
    hmerged hother.greatestPlaces hf.greatestPlaces⟩

theorem readPlaces?_lt {value : Text} {n : Nat} (h : readPlaces? value = some n) : n < 1 <<< 32 := by
  obtain ⟨x, _, h⟩ := Option.bind_eq_some_iff.1 h
  split at h
  · cases h
  · cases h
    exact Nat.lt_of_le_of_lt (Nat.min_le_right _ _) (by decide)

theorem isBounded_of_readStyle? {value : Text} {f : NumberStyle} (h : readStyle? value = some f) :
    f.IsBounded := by
  rw [readStyle?] at h
  cases hread : Json.read? NumberStyle.decode value with
  | some g =>
    rw [hread] at h
    cases h
    exact read?_yields NumberStyle.yields_decode hread
  | none =>
    rw [hread] at h
    obtain ⟨format, _, rfl⟩ := Option.map_eq_some_iff.1 h
    exact ⟨nofun, nofun, nofun⟩

/-- A reader that gives canonical settings only. -/
def Setting.Reads (reader : Text → Option Setting) : Prop :=
  ∀ value s, reader value = some s → s.IsCanonical

theorem Setting.reads_some {set : Text → Setting} (h : ∀ value, (set value).IsCanonical) :
    Setting.Reads fun value => some (set value) := by
  rintro value _ ⟨⟩
  exact h value

theorem Setting.reads_map {α : Type} {read? : Text → Option α} {set : α → Setting}
    (h : ∀ value a, read? value = some a → (set a).IsCanonical) :
    Setting.Reads fun value => (read? value).map set := by
  intro value s hs
  obtain ⟨a, ha, rfl⟩ := Option.map_eq_some_iff.1 hs
  exact h value a ha

theorem Setting.reads_readers : ∀ e ∈ Setting.readers, Setting.Reads e.2 := by
  have hbounded : ∀ {f : NumberStyle}, f.places = none → f.leastPlaces = none →
      f.greatestPlaces = none → f.IsBounded := fun hp hl hg =>
    ⟨by rw [hp]; exact nofun, by rw [hl]; exact nofun, by rw [hg]; exact nofun⟩
  simp only [Setting.readers, List.forall_mem_cons]
  refine ⟨reads_map fun _ _ _ => trivial, reads_some fun _ => trivial, reads_some fun _ => trivial,
    reads_some fun _ => trivial, reads_some fun _ => trivial, reads_some fun _ => trivial,
    reads_some fun _ => trivial, reads_some fun _ => trivial, reads_some fun _ => trivial,
    reads_some fun _ => trivial, reads_map fun _ _ _ => trivial, reads_map fun _ _ _ => trivial,
    reads_map fun _ _ _ => hbounded rfl rfl rfl, reads_some fun _ => hbounded rfl rfl rfl,
    reads_some fun _ => hbounded rfl rfl rfl, reads_some fun _ => hbounded rfl rfl rfl,
    reads_map fun _ _ hn => ⟨?_, nofun, nofun⟩, reads_map fun _ _ => isBounded_of_readStyle?,
    reads_some fun _ => trivial, reads_some fun _ => trivial, reads_some fun _ => trivial,
    reads_map fun _ _ => read?_yields yields_records, reads_map fun _ _ _ => trivial,
    reads_map fun _ _ => read?_yields yields_referenceLines, nofun⟩
  rintro _ ⟨⟩
  exact readPlaces?_lt hn

theorem Setting.isCanonical_of_read? {key value : Text} {s : Setting}
    (h : Setting.read? key value = some s) : s.IsCanonical := by
  rw [Setting.read?] at h
  split at h
  · cases h
  · obtain ⟨reader, hreader, h⟩ := Option.bind_eq_some_iff.1 h
    obtain ⟨front, rest, hreaders, -⟩ := List.lookup_eq_some_iff.1 hreader
    have he : (Setting.keyOf key, reader) ∈ Setting.readers := by
      rw [hreaders]
      exact List.mem_append_right _ List.mem_cons_self
    exact Setting.reads_readers _ he _ _ h

namespace Description.IsCanonical

variable {c : Description} (hc : c.IsCanonical)
include hc

theorem apply {s : Setting} (hs : s.IsCanonical) : (c.apply s).IsCanonical := by
  have hother : ∀ c' : Description, c'.data = c.data → c'.referenceLines = c.referenceLines →
      c'.numbers = c.numbers → c'.IsCanonical := fun c' hdata hlines hnumbers =>
    ⟨hdata ▸ hc.data, hlines ▸ hc.referenceLines, hnumbers ▸ hc.numbers⟩
  cases s with
  | numbers f =>
    have hbefore : (c.numbers.getD {}).IsBounded := by
      cases hnumbers : c.numbers with
      | none => exact NumberStyle.isBounded_default
      | some g => exact hc.numbers g hnumbers
    refine ⟨hc.data, hc.referenceLines, ?_⟩
    rintro _ ⟨⟩
    exact hbefore.merge hs
  | data rows => exact ⟨hs, hc.referenceLines, hc.numbers⟩
  | referenceLines ls =>
    refine ⟨hc.data, ?_, hc.numbers⟩
    rintro _ ⟨⟩
    exact hs
  | _ => exact hother _ rfl rfl rfl

theorem set (key value : Text) : (c.set key value).IsCanonical := by
  rw [Description.set]
  split
  · next s hs => exact hc.apply (Setting.isCanonical_of_read? hs)
  · exact hc

theorem setLine (line : Text) : (c.setLine line).IsCanonical := by
  rw [Description.setLine]
  split
  · exact hc.set _ _
  · exact hc

theorem withRows {rows : List Record} (h : ∀ r ∈ rows, IsRecord r) (xKey : Option Text)
    (dataKeys : Option (List Text)) :
    { c with data := rows, xKey, dataKeys }.IsCanonical := ⟨h, hc.referenceLines, hc.numbers⟩

theorem withColors : c.withColors.IsCanonical := ⟨hc.data, hc.referenceLines, hc.numbers⟩

end Description.IsCanonical

/-! ## From tables -/

theorem fits_of_toInt64? {s : Text} {n : Int} (h : Text.toInt64? s = some n) : Fits n := by
  unfold Text.toInt64? at h
  rcases ite_eq_iff.1 h with ⟨-, ⟨⟩⟩ | ⟨-, h⟩
  rcases ite_eq_iff.1 h with ⟨-, h⟩ | ⟨-, h⟩
  · rcases ite_eq_iff.1 h with ⟨hn, ⟨⟩⟩ | ⟨-, ⟨⟩⟩
    constructor <;> omega
  · rcases ite_eq_iff.1 h with ⟨hn, ⟨⟩⟩ | ⟨-, ⟨⟩⟩
    constructor <;> omega

theorem canonical_readCell (cell : Text) : (readCell cell).Canonical := by
  rw [readCell]
  split
  · next n hn => exact .int (fits_of_toInt64? hn)
  · split
    · exact .float _
    · exact .string cell

theorem isRecord_of_rowRecord? {names : List Text} {line : Text} {r : Record}
    (h : rowRecord? names line = some r) : IsRecord r := by
  unfold rowRecord? at h
  rcases ite_eq_iff.1 h with ⟨-, ⟨⟩⟩ | ⟨-, ⟨⟩⟩
  refine List.foldlRecOn _ _ IsRecord.nil fun r hr column _ => ?_
  rcases column with ⟨name, cell⟩
  by_cases hcell : cell.isEmpty
  · simpa only [hcell, if_true] using hr
  · simpa only [hcell, if_false, Bool.false_eq_true] using
      hr.insertLast name (canonical_readCell cell)

theorem isCanonical_of_readTable {text : Text} {c : Description} (h : readTable text = .ok c) :
    c.IsCanonical := by
  rw [readTable] at h
  split at h
  · cases h
  · next header rest _ =>
    split at h
    · cases h
    · next x keys _ =>
      cases h
      refine Description.IsCanonical.withColors ?_
      refine List.foldlRecOn (motive := Description.IsCanonical) _ _ ⟨fun r hr => ?_, nofun, nofun⟩
        fun c hc line _ => hc.setLine line
      obtain ⟨line, _, hline⟩ := List.mem_filterMap.1 hr
      exact isRecord_of_rowRecord? hline

/-! ## From lines -/

/-- Data of canonical values. -/
def LineData.IsCanonical : LineData → Prop
  | .records rows => ∀ r ∈ rows, IsRecord r
  | .values vs => ∀ v ∈ vs, v.Canonical

theorem isCanonical_of_lineData {value : Text} {data : LineData}
    (h : LineData.read? value = some data) : data.IsCanonical := by
  rw [LineData.read?] at h
  cases hread : readRecords? value with
  | some rows =>
    rw [hread] at h
    cases h
    exact read?_yields yields_records hread
  | none =>
    rw [hread] at h
    obtain ⟨vs, hvs, rfl⟩ := Option.map_eq_some_iff.1 h
    exact read?_yields (Decoder.yields_list fun _ _ _ => Decoder.canonical_of_value) hvs

theorem isRecord_labelled {labels : List Text} {vs : List Value} (h : ∀ v ∈ vs, v.Canonical) :
    ∀ r ∈ labelledRows labels vs, IsRecord r := by
  intro r hr
  obtain ⟨⟨v, i⟩, hv, rfl⟩ := List.mem_map.1 hr
  have hvalue := h v (List.fst_mem_of_mem_zipIdx hv)
  exact ⟨by simp, List.forall_mem_cons.2
    ⟨.string _, List.forall_mem_cons.2 ⟨hvalue, List.forall_mem_nil _⟩⟩⟩

theorem isRecord_objectsOf {vs : List Value} (h : ∀ v ∈ vs, v.Canonical) :
    ∀ r ∈ objectsOf vs, IsRecord r := by
  intro r hr
  obtain ⟨v, hv, heq⟩ := List.mem_filterMap.1 hr
  have hc := h v hv
  cases v with
  | object ms =>
    cases heq
    cases hc with
    | object hsorted hvalues => exact ⟨hsorted.nodup, hvalues⟩
  | null | bool | number | string | array => cases heq

theorem Description.IsCanonical.withData {c : Description} (hc : c.IsCanonical) {data : LineData}
    (h : data.IsCanonical) : (c.withData data).IsCanonical := by
  cases data with
  | records rows => exact hc.withRows h c.xKey c.dataKeys
  | values vs =>
    rw [Description.withData]
    split
    · exact hc.withRows (isRecord_labelled h) _ _
    · exact hc.withRows (isRecord_objectsOf h) c.xKey c.dataKeys

theorem isCanonical_stepLine {state : Description × Option LineData} (hc : state.1.IsCanonical)
    (hdata : ∀ data ∈ state.2, data.IsCanonical) (line : Text) :
    (stepLine state line).1.IsCanonical ∧ ∀ data ∈ (stepLine state line).2, data.IsCanonical := by
  rw [stepLine]
  split
  · exact ⟨hc, hdata⟩
  · split
    · refine ⟨hc, fun data hread => ?_⟩
      next value _ _ =>
      cases hvalue : LineData.read? (Text.trim value) with
      | some read =>
        rw [hvalue] at hread
        cases hread
        exact isCanonical_of_lineData hvalue
      | none =>
        rw [hvalue] at hread
        exact hdata data hread
    · exact ⟨hc.set _ _, hdata⟩

theorem isCanonical_readLines (text : Text) : (readLines text).IsCanonical := by
  have hrun : ∀ (lines : List Text) (state : Description × Option LineData),
      state.1.IsCanonical → (∀ data ∈ state.2, data.IsCanonical) →
      (lines.foldl stepLine state).1.IsCanonical ∧
        ∀ data ∈ (lines.foldl stepLine state).2, data.IsCanonical := by
    intro lines
    induction lines with
    | nil => exact fun _ hc hdata => ⟨hc, hdata⟩
    | cons line lines ih =>
      intro state hc hdata
      obtain ⟨hc, hdata⟩ := isCanonical_stepLine hc hdata line
      exact ih _ hc hdata
  obtain ⟨hc, hdata⟩ := hrun (Text.lines (Text.trim text))
    ({ colors := some standardColors }, none) ⟨nofun, nofun, nofun⟩ nofun
  rw [readLines]
  refine Description.IsCanonical.withColors ?_
  split
  · next data hlast => exact hc.withData (hdata data hlast)
  · exact hc

/-- **What a chart block is read as is canonical**, whatever its dialect. -/
theorem isCanonical_of_read {text tag : Text} {c : Description}
    (h : Description.read text tag = .ok c) : c.IsCanonical := by
  rw [Description.read] at h
  cases hdialect : Dialect.ofBlock text tag with
  | error e =>
    rw [hdialect] at h
    cases h
  | ok dialect =>
    rw [hdialect] at h
    cases dialect with
    | json =>
      cases hread : Json.read? Description.decode text with
      | some c' =>
        simp only [hread] at h
        cases h
        exact read?_yields Description.yields_decode hread
      | none =>
        simp only [hread] at h
        cases h
    | table => exact isCanonical_of_readTable h
    | lines =>
      cases h
      exact isCanonical_readLines text

end MarkdownPrep.Chart
