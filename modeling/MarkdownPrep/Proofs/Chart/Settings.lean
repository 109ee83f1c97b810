import Mathlib.Data.List.Forall2
import Mathlib.Data.List.Nodup
import MarkdownPrep.Chart.Setting
import MarkdownPrep.Proofs.Json.GivenFields

/-!
# What a setting changes

Every key stands for one part of a description, and takes the values that fit it; `keyRules` lists
the keys. A setting with an unknown key, or a value that does not fit, changes nothing, and any
other changes its part alone. Of the number style it changes only the parts that it names
(`set_of_refused_or_fits`).
-/

namespace MarkdownPrep.Chart

open Json

/-! ## The parts of a description -/

/-- The parts of a description. -/
inductive Part where
  | kind
  | data
  | title
  | description
  | xKey
  | dataKeys
  | colors
  | labels
  | series
  | referenceLines
  | numbers
  | stacked
  | showLegend
  | showGrid
  | xAxisLabel
  | yAxisLabel
  | yAxisRightLabel
  | width
  | height
  deriving DecidableEq

/-- What a setting sets. -/
def Setting.part : Setting → Part
  | .kind _ => .kind
  | .title _ => .title
  | .description _ => .description
  | .xAxisLabel _ => .xAxisLabel
  | .yAxisLabel _ => .yAxisLabel
  | .yAxisRightLabel _ => .yAxisRightLabel
  | .xKey _ => .xKey
  | .stacked _ => .stacked
  | .showLegend _ => .showLegend
  | .showGrid _ => .showGrid
  | .height _ => .height
  | .width _ => .width
  | .numbers _ => .numbers
  | .colors _ => .colors
  | .labels _ => .labels
  | .dataKeys _ => .dataKeys
  | .data _ => .data
  | .series _ => .series
  | .referenceLines _ => .referenceLines

namespace Description

/-- True when a part is given. There are always data, if only no rows of them. -/
def Has (c : Description) : Part → Prop
  | .kind => c.kind.isSome
  | .data => True
  | .title => c.title.isSome
  | .description => c.description.isSome
  | .xKey => c.xKey.isSome
  | .dataKeys => c.dataKeys.isSome
  | .colors => c.colors.isSome
  | .labels => c.labels.isSome
  | .series => c.series.isSome
  | .referenceLines => c.referenceLines.isSome
  | .numbers => c.numbers.isSome
  | .stacked => c.stacked.isSome
  | .showLegend => c.showLegend.isSome
  | .showGrid => c.showGrid.isSome
  | .xAxisLabel => c.xAxisLabel.isSome
  | .yAxisLabel => c.yAxisLabel.isSome
  | .yAxisRightLabel => c.yAxisRightLabel.isSome
  | .width => c.width.isSome
  | .height => c.height.isSome

/-- The description with one part taken from another. -/
def withPart (c : Description) (p : Part) (d : Description) : Description :=
  match p with
  | .kind => { c with kind := d.kind }
  | .data => { c with data := d.data }
  | .title => { c with title := d.title }
  | .description => { c with description := d.description }
  | .xKey => { c with xKey := d.xKey }
  | .dataKeys => { c with dataKeys := d.dataKeys }
  | .colors => { c with colors := d.colors }
  | .labels => { c with labels := d.labels }
  | .series => { c with series := d.series }
  | .referenceLines => { c with referenceLines := d.referenceLines }
  | .numbers => { c with numbers := d.numbers }
  | .stacked => { c with stacked := d.stacked }
  | .showLegend => { c with showLegend := d.showLegend }
  | .showGrid => { c with showGrid := d.showGrid }
  | .xAxisLabel => { c with xAxisLabel := d.xAxisLabel }
  | .yAxisLabel => { c with yAxisLabel := d.yAxisLabel }
  | .yAxisRightLabel => { c with yAxisRightLabel := d.yAxisRightLabel }
  | .width => { c with width := d.width }
  | .height => { c with height := d.height }

variable (c : Description) (s : Setting)

theorem has_apply : (c.apply s).Has s.part := by
  cases s <;> first | exact rfl | trivial

/-- A setting leaves the other parts as they are. -/
theorem withPart_apply : c.withPart s.part (c.apply s) = c.apply s := by
  cases s <;> rfl

/-- What a setting sets does not depend on what was there, the number style aside. -/
theorem withPart_apply_default {s : Setting} (h : s.part ≠ .numbers) :
    c.withPart s.part (({} : Description).apply s) = c.apply s := by
  cases s <;> first | rfl | exact absurd rfl h

end Description

/-! ## The parts of a number style -/

/-- The parts of a number style. -/
inductive StylePart where
  | format
  | currency
  | places
  | leastPlaces
  | greatestPlaces
  | before
  | after
  deriving DecidableEq

/-- The field name of a part. -/
def StylePart.name : StylePart → String
  | format => "format"
  | currency => "currency"
  | places => "decimals"
  | leastPlaces => "minimumFractionDigits"
  | greatestPlaces => "maximumFractionDigits"
  | before => "prefix"
  | after => "suffix"

namespace NumberStyle

/-- True when a part is given. -/
def Has (f : NumberStyle) : StylePart → Prop
  | .format => f.format.isSome
  | .currency => f.currency.isSome
  | .places => f.places.isSome
  | .leastPlaces => f.leastPlaces.isSome
  | .greatestPlaces => f.greatestPlaces.isSome
  | .before => f.before.isSome
  | .after => f.after.isSome

/-- True when two styles have the same for a part. -/
def SameIn (f g : NumberStyle) : StylePart → Prop
  | .format => f.format = g.format
  | .currency => f.currency = g.currency
  | .places => f.places = g.places
  | .leastPlaces => f.leastPlaces = g.leastPlaces
  | .greatestPlaces => f.greatestPlaces = g.greatestPlaces
  | .before => f.before = g.before
  | .after => f.after = g.after

variable {p : StylePart}

theorem sameIn_merge_of_has (f : NumberStyle) {g : NumberStyle} (h : g.Has p) :
    (f.merge g).SameIn g p := by
  have hnew : ∀ {α : Type} {a b : Option α}, b.isSome → (b <|> a) = b := by
    rintro α a (_ | b) hb
    · cases hb
    · rfl
  cases p <;> exact hnew h

theorem sameIn_merge_of_not_has (f : NumberStyle) {g : NumberStyle} (h : ¬ g.Has p) :
    (f.merge g).SameIn f p := by
  have hold : ∀ {α : Type} {a b : Option α}, ¬ b.isSome → (b <|> a) = a := by
    rintro α a (_ | b) hb
    · rfl
    · exact absurd rfl hb
  cases p <;> exact hold h

theorem merge_default_left (f : NumberStyle) : ({} : NumberStyle).merge f = f := by
  simp [merge]

/-- A decoded style has the parts of which the tree gives the fields. -/
theorem has_iff_gives {d : Nat} {t : Tree} {f : NumberStyle} (h : decode d t = some f)
    (p : StylePart) : f.Has p ↔ t.Gives fieldNames p.name.toList := by
  obtain ⟨fields, hfields, h⟩ := Option.bind_eq_some_iff.1 h
  obtain ⟨format, hformat, h⟩ := Option.bind_eq_some_iff.1 h
  obtain ⟨currency, hcurrency, h⟩ := Option.bind_eq_some_iff.1 h
  obtain ⟨places, hplaces, h⟩ := Option.bind_eq_some_iff.1 h
  obtain ⟨least, hleast, h⟩ := Option.bind_eq_some_iff.1 h
  obtain ⟨greatest, hgreatest, h⟩ := Option.bind_eq_some_iff.1 h
  obtain ⟨before, hbefore, h⟩ := Option.bind_eq_some_iff.1 h
  obtain ⟨after, hafter, h⟩ := Option.bind_eq_some_iff.1 h
  cases h
  have hname : ∀ p : StylePart, p.name.toList ∈ fieldNames := by
    intro p
    cases p <;> decide
  cases p with
  | format => exact Fields.isSome_iff_gives hfields (hname .format) hformat
  | currency => exact Fields.isSome_iff_gives hfields (hname .currency) hcurrency
  | places => exact Fields.isSome_iff_gives hfields (hname .places) hplaces
  | leastPlaces => exact Fields.isSome_iff_gives hfields (hname .leastPlaces) hleast
  | greatestPlaces => exact Fields.isSome_iff_gives hfields (hname .greatestPlaces) hgreatest
  | before => exact Fields.isSome_iff_gives hfields (hname .before) hbefore
  | after => exact Fields.isSome_iff_gives hfields (hname .after) hafter

theorem has_format_iff {format : NumberFormat} :
    ({ format := some format } : NumberStyle).Has p ↔ p = .format := by
  cases p <;> simp [Has]

end NumberStyle

/-! ## Values that fit -/

/-- A text that is one of some names, letter case and white space around it aside. -/
def IsNameIn {α : Type} (names : List (Text × α)) (v : Text) : Prop :=
  Text.lower (Text.trim v) ∈ names.map Prod.fst

/-- A document with the tree `t` that is a number style. -/
def IsStyle (v : Text) (t : Tree) : Prop :=
  Tree.read? v = some t ∧ ∃ f, NumberStyle.decode maxDepth t = some f

/-- An object with the fields of a number style. -/
def IsStyleObject (v : Text) : Prop := ∃ ms, IsStyle v (.object ms)

/-- An array with the fields of a number style in order. -/
def IsStyleArray (v : Text) : Prop := ∃ ts, IsStyle v (.array ts)

theorem exists_namedIn?_iff {α : Type} {names : List (Text × α)} {v : Text} :
    (∃ a, namedIn? names v = some a) ↔ IsNameIn names v := by
  rw [← Option.isSome_iff_exists, namedIn?, List.lookup_isSome_iff, IsNameIn]
  simp

theorem exists_style_iff {v : Text} :
    (∃ t, IsStyle v t) ↔ IsStyleObject v ∨ IsStyleArray v := by
  constructor
  · rintro ⟨t, ht, f, hf⟩
    -- the fields of a structure are only found in an object or an array
    match t with
    | .object ms => exact .inl ⟨ms, ht, f, hf⟩
    | .array ts => exact .inr ⟨ts, ht, f, hf⟩
    | .null | .bool _ | .number _ | .string _ => exact absurd hf nofun
  · rintro (⟨ms, h⟩ | ⟨ts, h⟩)
    · exact ⟨_, h⟩
    · exact ⟨_, h⟩

theorem exists_read?_iff {v : Text} :
    (∃ f, Json.read? NumberStyle.decode v = some f) ↔ ∃ t, IsStyle v t := by
  simp only [Json.read?, Option.bind_eq_some_iff, IsStyle]
  exact ⟨fun ⟨f, t, ht, hf⟩ => ⟨t, ht, f, hf⟩, fun ⟨t, ht, f, hf⟩ => ⟨f, t, ht, hf⟩⟩

theorem exists_readStyle?_iff {v : Text} : (∃ f, readStyle? v = some f) ↔
    IsStyleObject v ∨ IsStyleArray v ∨ IsNameIn NumberFormat.names v := by
  rw [← or_assoc, ← exists_style_iff, ← exists_read?_iff, ← exists_namedIn?_iff]
  cases hread : Json.read? NumberStyle.decode v <;> simp [readStyle?, hread]

/-- The parts that a text for a number style names: the fields that a document gives, and the format
where the text is just its name. -/
def NamesStylePart (v : Text) (p : StylePart) : Prop :=
  (∃ t, IsStyle v t ∧ t.Gives NumberStyle.fieldNames p.name.toList) ∨
    ¬ (IsStyleObject v ∨ IsStyleArray v) ∧ p = .format

theorem has_iff_of_readStyle? {v : Text} {f : NumberStyle} (h : readStyle? v = some f)
    (p : StylePart) : f.Has p ↔ NamesStylePart v p := by
  rw [NamesStylePart, ← exists_style_iff]
  cases hread : Json.read? NumberStyle.decode v with
  | some g =>
    rw [readStyle?, hread] at h
    cases h
    obtain ⟨t, ht, hf⟩ := Option.bind_eq_some_iff.1 hread
    rw [NumberStyle.has_iff_gives hf p]
    constructor
    · exact fun hgives => .inl ⟨t, ⟨ht, f, hf⟩, hgives⟩
    · rintro (⟨u, ⟨hu, -⟩, hgives⟩ | ⟨hno, -⟩)
      · cases ht.symm.trans hu
        exact hgives
      · exact absurd ⟨t, ht, f, hf⟩ hno
  | none =>
    have hno : ¬ ∃ t, IsStyle v t := by simp [← exists_read?_iff, hread]
    rw [readStyle?, hread] at h
    obtain ⟨format, -, rfl⟩ := Option.map_eq_some_iff.1 h
    have hnone : ¬ ∃ t, IsStyle v t ∧ t.Gives NumberStyle.fieldNames p.name.toList :=
      fun ⟨t, ht, _⟩ => hno ⟨t, ht⟩
    simp only [hno, hnone, not_false_eq_true, true_and, false_or]
    exact NumberStyle.has_format_iff

/-! ## The keys -/

/-- What is said of a key. -/
structure KeyRule where
  /-- The key in small letters. -/
  name : Text
  part : Part
  /-- The values that fit the key. -/
  Fits : Text → Prop := fun _ => True
  /-- The parts of the number style that a value names. -/
  Names : Text → StylePart → Prop := fun _ _ => False

/-- The keys of settings. -/
def keyRules : List KeyRule := [
  { name := "type".toList, part := .kind, Fits := IsNameIn Kind.names },
  { name := "title".toList, part := .title },
  { name := "description".toList, part := .description },
  { name := "xaxislabel".toList, part := .xAxisLabel },
  { name := "yaxislabel".toList, part := .yAxisLabel },
  { name := "yaxisrightlabel".toList, part := .yAxisRightLabel },
  { name := "xkey".toList, part := .xKey },
  { name := "stacked".toList, part := .stacked },
  { name := "showlegend".toList, part := .showLegend },
  { name := "showgrid".toList, part := .showGrid },
  { name := "height".toList, part := .height, Fits := fun v => ∃ x, readLength? v = some x },
  { name := "width".toList, part := .width, Fits := fun v => ∃ x, readLength? v = some x },
  { name := "valueformat".toList, part := .numbers, Fits := IsNameIn NumberFormat.names,
    Names := fun _ p => p = .format },
  { name := "valueprefix".toList, part := .numbers, Names := fun _ p => p = .before },
  { name := "valuesuffix".toList, part := .numbers, Names := fun _ p => p = .after },
  { name := "valuecurrency".toList, part := .numbers, Names := fun _ p => p = .currency },
  { name := "valuedecimals".toList, part := .numbers,
    Fits := fun v => ∃ x, readLength? v = some x ∧ x.isNegative = false,
    Names := fun _ p => p = .places },
  -- an array of the fields in order fits as well as an object
  { name := "formatter".toList, part := .numbers,
    Fits := fun v => IsStyleObject v ∨ IsStyleArray v ∨ IsNameIn NumberFormat.names v,
    Names := NamesStylePart },
  { name := "colors".toList, part := .colors },
  { name := "labels".toList, part := .labels },
  { name := "datakeys".toList, part := .dataKeys },
  { name := "data".toList, part := .data, Fits := fun v => ∃ rows, readRecords? v = some rows },
  { name := "series".toList, part := .series,
    Fits := fun v => ∃ ss, Json.read? (.list Series.decode) v = some ss },
  { name := "referencelines".toList, part := .referenceLines,
    Fits := fun v => ∃ ls, Json.read? (.list ReferenceLine.decode) v = some ls }]

theorem nodup_names_keyRules : (keyRules.map KeyRule.name).Nodup := by decide

theorem names_ne_nil : ∀ rule ∈ keyRules, rule.name ≠ [] := by decide

/-- A reader that reads the values that fit a rule and gives settings of its part. -/
structure Follows (rule : KeyRule) (reader : Text → Option Setting) : Prop where
  reads : ∀ v, (∃ s, reader v = some s) ↔ rule.Fits v
  part : ∀ v s, reader v = some s → s.part = rule.part
  names : ∀ v f, reader v = some (.numbers f) → ∀ p, f.Has p ↔ rule.Names v p

section
variable {name : Text} {part : Part} {Names : Text → StylePart → Prop}

theorem follows_map {α : Type} {read? : Text → Option α} {set : α → Setting}
    {Fits : Text → Prop} (hfits : ∀ v, (∃ a, read? v = some a) ↔ Fits v)
    (hpart : ∀ a, (set a).part = part)
    (hnames : ∀ v a f, read? v = some a → set a = .numbers f → ∀ p, f.Has p ↔ Names v p) :
    Follows { name, part, Fits, Names } fun v => (read? v).map set where
  reads v := by simp [← hfits]
  part := by
    intro v s h
    obtain ⟨a, -, rfl⟩ := Option.map_eq_some_iff.1 h
    exact hpart a
  names := by
    intro v f h
    obtain ⟨a, ha, hset⟩ := Option.map_eq_some_iff.1 h
    exact hnames v a f ha hset

/-- A reader of a part that is not the number style. -/
theorem follows_part_map {α : Type} {read? : Text → Option α} {set : α → Setting}
    {Fits : Text → Prop} (hfits : ∀ v, (∃ a, read? v = some a) ↔ Fits v)
    (hpart : ∀ a, (set a).part = part) (hne : part ≠ .numbers) :
    Follows { name, part, Fits } fun v => (read? v).map set :=
  follows_map hfits hpart fun _ a _ _ hset => absurd ((hpart a).symm.trans (hset ▸ rfl)) hne

/-- A reader of the number style. -/
theorem follows_style_map {α : Type} {read? : Text → Option α} {style : α → NumberStyle}
    {Fits : Text → Prop} (hfits : ∀ v, (∃ a, read? v = some a) ↔ Fits v)
    (hnames : ∀ v a, read? v = some a → ∀ p, (style a).Has p ↔ Names v p) :
    Follows { name, part := .numbers, Fits, Names }
      fun v => (read? v).map fun a => .numbers (style a) :=
  follows_map hfits (fun _ => rfl) fun v a f ha hset => by
    cases hset
    exact hnames v a ha

theorem exists_some_iff (v : Text) : (∃ a, some v = some a) ↔ True := by simp

theorem follows_part {set : Text → Setting} (hpart : ∀ v, (set v).part = part)
    (hne : part ≠ .numbers) : Follows { name, part } fun v => some (set v) :=
  follows_part_map exists_some_iff hpart hne

theorem follows_style {style : Text → NumberStyle} (hnames : ∀ v p, (style v).Has p ↔ Names v p) :
    Follows { name, part := .numbers, Names } fun v => some (.numbers (style v)) :=
  follows_style_map exists_some_iff fun v a ha => by
    cases ha
    exact hnames v

end

theorem exists_readPlaces?_iff {v : Text} : (∃ n, readPlaces? v = some n) ↔
    ∃ x, readLength? v = some x ∧ x.isNegative = false := by
  constructor
  · rintro ⟨n, hn⟩
    obtain ⟨x, hx, h⟩ := Option.bind_eq_some_iff.1 hn
    by_cases hneg : x.isNegative
    · simp [hneg] at h
    · exact ⟨x, hx, by simpa using hneg⟩
  · rintro ⟨x, hx, hneg⟩
    exact ⟨_, by rw [readPlaces?, hx, Option.bind_some, hneg]; rfl⟩

/-- The readers of values follow the rules. -/
theorem follows_readers :
    List.Forall₂ (fun rule e => rule.name = e.1 ∧ Follows rule e.2) keyRules Setting.readers := by
  simp only [keyRules, Setting.readers, List.forall₂_cons, List.forall₂_nil_left_iff, and_true,
    true_and]
  exact ⟨follows_part_map (fun _ => exists_namedIn?_iff) (fun _ => rfl) nofun,
    follows_part (fun _ => rfl) nofun, follows_part (fun _ => rfl) nofun,
    follows_part (fun _ => rfl) nofun, follows_part (fun _ => rfl) nofun,
    follows_part (fun _ => rfl) nofun, follows_part (fun _ => rfl) nofun,
    follows_part (fun _ => rfl) nofun, follows_part (fun _ => rfl) nofun,
    follows_part (fun _ => rfl) nofun,
    follows_part_map (fun _ => Iff.rfl) (fun _ => rfl) nofun,
    follows_part_map (fun _ => Iff.rfl) (fun _ => rfl) nofun,
    follows_style_map (fun _ => exists_namedIn?_iff) fun _ _ _ _ => NumberStyle.has_format_iff,
    follows_style fun _ p => by cases p <;> simp [NumberStyle.Has],
    follows_style fun _ p => by cases p <;> simp [NumberStyle.Has],
    follows_style fun _ p => by cases p <;> simp [NumberStyle.Has],
    follows_style_map (fun _ => exists_readPlaces?_iff) fun _ _ _ p => by
      cases p <;> simp [NumberStyle.Has],
    follows_style_map (fun _ => exists_readStyle?_iff) fun _ _ h => has_iff_of_readStyle? h,
    follows_part (fun _ => rfl) nofun, follows_part (fun _ => rfl) nofun,
    follows_part (fun _ => rfl) nofun,
    follows_part_map (fun _ => Iff.rfl) (fun _ => rfl) nofun,
    follows_part_map (fun _ => Iff.rfl) (fun _ => rfl) nofun,
    follows_part_map (fun _ => Iff.rfl) (fun _ => rfl) nofun⟩

theorem eq_of_name_eq {rule other : KeyRule} (h : rule ∈ keyRules) (hother : other ∈ keyRules)
    (hname : rule.name = other.name) : rule = other :=
  List.inj_on_of_nodup_map nodup_names_keyRules h hother hname

/-- A key has neither a rule nor a reader, or a rule and a reader that follows it. -/
theorem lookup_of_forall₂ {rules : List KeyRule} {es : List (Text × (Text → Option Setting))}
    (h : List.Forall₂ (fun rule e => rule.name = e.1 ∧ Follows rule e.2) rules es) (key : Text) :
    (es.lookup key = none ∧ ∀ rule ∈ rules, rule.name ≠ key) ∨
      ∃ rule ∈ rules, rule.name = key ∧ ∃ reader, es.lookup key = some reader ∧
        Follows rule reader := by
  induction h with
  | nil => exact .inl ⟨rfl, nofun⟩
  | @cons rule e rules es hrule hrules ih =>
    obtain ⟨hname, hfollows⟩ := hrule
    by_cases hkey : rule.name = key
    · refine .inr ⟨rule, List.mem_cons_self, hkey, e.2, ?_, hfollows⟩
      rw [← hkey, hname]
      exact List.lookup_cons_self
    · have hlookup : (e :: es).lookup key = es.lookup key := by
        rw [List.lookup_cons, beq_false_of_ne (hname ▸ Ne.symm hkey)]
      rw [hlookup]
      rcases ih with ⟨hnone, hothers⟩ | ⟨found, hfound, hreader⟩
      · exact .inl ⟨hnone, List.forall_mem_cons.2 ⟨hkey, hothers⟩⟩
      · exact .inr ⟨found, List.mem_cons_of_mem _ hfound, hreader⟩

/-! ## What a line changes -/

/-- A line that sets nothing: one without a key or value, with an unknown key, or with a value that
does not fit its key. -/
def IsRefused (key value : Text) : Prop :=
  Text.trim key = [] ∨ Text.trim value = [] ∨
    ∀ rule ∈ keyRules, rule.name = Setting.keyOf key → ¬ rule.Fits (Text.trim value)

theorem read?_of_refused_or_follows (key value : Text) :
    (IsRefused key value ∧ Setting.read? key value = none) ∨
      ¬ IsRefused key value ∧ ∃ rule ∈ keyRules, rule.name = Setting.keyOf key ∧
        ∃ reader s, Follows rule reader ∧ reader (Text.trim value) = some s ∧
          Setting.read? key value = some s := by
  by_cases hvalue : Text.trim value = []
  · exact .inl ⟨.inr (.inl hvalue), by rw [Setting.read?, hvalue]; rfl⟩
  have hread : Setting.read? key value =
      (Setting.readers.lookup (Setting.keyOf key)).bind (· (Text.trim value)) := by
    simp [Setting.read?, hvalue]
  rcases lookup_of_forall₂ follows_readers (Setting.keyOf key) with
    ⟨hnone, hunknown⟩ | ⟨rule, hrule, hname, reader, hreader, hfollows⟩
  · refine .inl ⟨.inr (.inr fun rule hrule hname => ?_), by rw [hread, hnone]; rfl⟩
    exact absurd hname (hunknown rule hrule)
  · rw [hreader, Option.bind_some] at hread
    cases hs : reader (Text.trim value) with
    | none =>
      refine .inl ⟨.inr (.inr fun other hother hkey hfits => ?_), hread.trans hs⟩
      obtain rfl := eq_of_name_eq hother hrule (hkey.trans hname.symm)
      obtain ⟨s, hs'⟩ := (hfollows.reads _).2 hfits
      cases hs.symm.trans hs'
    | some s =>
      refine .inr ⟨?_, rule, hrule, hname, reader, s, hfollows, hs, hread.trans hs⟩
      rintro (hkey | hblank | hno)
      · exact names_ne_nil rule hrule (by rw [hname, Setting.keyOf, hkey]; rfl)
      · exact hvalue hblank
      · exact hno rule hrule hname ((hfollows.reads _).1 ⟨s, hs⟩)

theorem isRefused_iff {key value : Text} :
    IsRefused key value ↔ Setting.read? key value = none := by
  rcases read?_of_refused_or_follows key value with ⟨h, hread⟩ | ⟨h, _, _, _, _, s, _, _, hread⟩
  · exact iff_of_true h hread
  · exact iff_of_false h (by rw [hread]; exact nofun)

/-- How the description `c` becomes `d` by a line with a key of the rule `rule` and the value
`value`, where `alone` is what the line makes of the empty description. -/
structure IsSet (rule : KeyRule) (value : Text) (alone c d : Description) : Prop where
  /-- The other parts stay. -/
  only : c.withPart rule.part d = d
  given : d.Has rule.part
  /-- A part other than the number style is set as a whole. -/
  whole : rule.part ≠ .numbers → c.withPart rule.part alone = d
  /-- The named parts of the number style are set, and its other parts stay. -/
  style : rule.part = .numbers → ∃ f g, alone.numbers = some f ∧ d.numbers = some g ∧ ∀ p,
    (rule.Names value p → f.Has p ∧ g.SameIn f p) ∧
      (¬ rule.Names value p → g.SameIn (c.numbers.getD {}) p)

theorem isSet_apply {rule : KeyRule} {reader : Text → Option Setting} (h : Follows rule reader)
    {value : Text} {s : Setting} (hs : reader value = some s) (c : Description) :
    IsSet rule value (({} : Description).apply s) c (c.apply s) := by
  have hpart := h.part value s hs
  refine ⟨?_, ?_, ?_, ?_⟩
  · rw [← hpart]
    exact c.withPart_apply s
  · rw [← hpart]
    exact c.has_apply s
  · rw [← hpart]
    exact c.withPart_apply_default
  · intro hnumbers
    cases s with
    | numbers f =>
      refine ⟨f, (c.numbers.getD {}).merge f, ?_, rfl, fun p => ⟨fun hp => ?_, fun hp => ?_⟩⟩
      · exact congrArg some (NumberStyle.merge_default_left f)
      · have hhas := (h.names value f hs p).2 hp
        exact ⟨hhas, NumberStyle.sameIn_merge_of_has _ hhas⟩
      · exact NumberStyle.sameIn_merge_of_not_has _ fun hhas => hp ((h.names value f hs p).1 hhas)
    | _ => exact absurd (hpart.trans hnumbers) nofun

/-- **A line changes nothing or only the part that its key stands for**, and of the number style
only the parts that it names. -/
theorem set_of_refused_or_fits (key value : Text) :
    (IsRefused key value → ∀ c : Description, c.set key value = c) ∧
      (¬ IsRefused key value → ∃ rule ∈ keyRules, rule.name = Setting.keyOf key ∧
        rule.Fits (Text.trim value) ∧ ∀ c : Description,
          IsSet rule (Text.trim value) (({} : Description).set key value) c (c.set key value)) := by
  rcases read?_of_refused_or_follows key value with
    ⟨hrefused, hread⟩ | ⟨hset, rule, hrule, hname, reader, s, hfollows, hs, hread⟩
  · exact ⟨fun _ c => by rw [Description.set, hread], fun h => absurd hrefused h⟩
  · refine ⟨fun h => absurd h hset, fun _ => ⟨rule, hrule, hname, ?_, fun c => ?_⟩⟩
    · exact (hfollows.reads _).1 ⟨s, hs⟩
    · simp only [Description.set, hread]
      exact isSet_apply hfollows hs c

/-- A chart with dollars before its numbers. -/
def dollarChart : Description := { numbers := some { before := some "$".toList } }

/-- A number style with a percent sign after numbers. -/
def percentStyle : Text := " \x7b\"suffix\": \"%\", \"prefix\": null\x7d".toList

theorem set_of_refused_or_fits_of_style :
    IsRefused "valueDecimals".toList "-1".toList ∧
      dollarChart.set "valueDecimals".toList "-1".toList = dollarChart ∧
      ¬ IsRefused "Formatter".toList percentStyle ∧
      ∃ rule ∈ keyRules, rule.name = "formatter".toList ∧ rule.Fits (Text.trim percentStyle) ∧
        IsSet rule (Text.trim percentStyle) (({} : Description).set "Formatter".toList percentStyle)
          dollarChart (dollarChart.set "Formatter".toList percentStyle) := by
  have hrefused : IsRefused "valueDecimals".toList "-1".toList :=
    isRefused_iff.2 (Option.isNone_iff_eq_none.1 (by decide +kernel))
  have hread : (Setting.read? "Formatter".toList percentStyle).isSome := by decide +kernel
  have hset : ¬ IsRefused "Formatter".toList percentStyle := fun h => by
    rw [isRefused_iff.1 h] at hread
    cases hread
  obtain ⟨rule, hrule, hname, hfits, hall⟩ :=
    (set_of_refused_or_fits "Formatter".toList percentStyle).2 hset
  have hkey : Setting.keyOf "Formatter".toList = "formatter".toList := by decide
  exact ⟨hrefused, (set_of_refused_or_fits _ _).1 hrefused dollarChart, hset, rule, hrule,
    hname.trans hkey, hfits, hall dollarChart⟩

/-- An array is no style object and no format name, and yet it makes an empty number style. -/
theorem not_set_eq_of_no_style :
    ¬ ∀ (c : Description) (value : Text), ¬ IsStyleObject value →
      ¬ IsNameIn NumberFormat.names value → c.set "formatter".toList value = c := by
  intro h
  have htree : Tree.read? "[]".toList = some (.array []) := rfl
  have hobject : ¬ IsStyleObject "[]".toList := by
    rintro ⟨ms, ht, -⟩
    cases htree.symm.trans ht
  have hname : ¬ IsNameIn NumberFormat.names "[]".toList := by
    rw [IsNameIn]
    decide +kernel
  have hnumbers := congrArg Description.numbers (h {} "[]".toList hobject hname)
  revert hnumbers
  decide +kernel

end MarkdownPrep.Chart
