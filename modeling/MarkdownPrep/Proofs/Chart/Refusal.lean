import MarkdownPrep.Proofs.Chart.Beginnings
import MarkdownPrep.Proofs.Chart.Shape
import MarkdownPrep.Render.Route

/-!
# Chart blocks that are refused

A chart block is refused if its tag is none of the three, if it is to be JSON and has not the shape
of a description, or if its table has a header without names (`Refuses`), and in no other case
(`read_eq_error_iff`). So a block of lines is never refused. The blocks that are routed to a chart
are those whose language is a tag, so that none of them has a tag that is refused.
-/

namespace MarkdownPrep

namespace Chart

/-! ## Tags -/

theorem Tag.ofText?_eq_some_iff {s : Text} {tag : Tag} :
    ofText? s = some tag ↔ Text.lower (Text.trim s) = tag.name := by
  rw [ofText?]
  constructor
  · intro h
    have hname := List.find?_some h
    exact (beq_iff_eq.1 hname).symm
  · intro h
    rw [h]
    cases tag <;> decide

theorem Tag.ofText?_eq_none_iff {s : Text} :
    ofText? s = none ↔ ∀ tag : Tag, Text.lower (Text.trim s) ≠ tag.name := by
  simp only [Option.eq_none_iff_forall_ne_some, ne_eq, ofText?_eq_some_iff]

theorem Tag.ofText?_name (tag : Tag) : ofText? tag.name = some tag := by
  cases tag <;> decide

end Chart

namespace Render

theorem other_route_ne_chart (p : Preferences) (language : Text) (tag : Chart.Tag) :
    (graphRoute? p language).getD
      (if p.highlighting then .highlighted language p.theme else .plain) ≠ .chart tag := by
  unfold graphRoute?
  split_ifs <;> simp

/-- The blocks that are routed to a chart are those whose language is a tag. -/
theorem routeOf_eq_chart_iff {p : Preferences} {language : Option Text} {tag : Chart.Tag} :
    routeOf p language = .chart tag ↔
      p.charts ∧ ∃ l, language = some l ∧ Chart.Tag.ofText? l = some tag := by
  cases language with
  | none => simp [routeOf]
  | some l =>
    simp only [Option.some_inj, exists_eq_left']
    cases htrim : Text.trim l with
    | nil =>
      have hnone : Chart.Tag.ofText? l = none := by
        rw [Chart.Tag.ofText?, htrim]
        decide
      have hplain : routeOf p (some l) = .plain := by
        rw [routeOf, Option.map_some, htrim]
        rfl
      simp [hplain, hnone]
    | cons c s =>
      have hsame : Chart.Tag.ofText? (Text.lower (c :: s)) = Chart.Tag.ofText? l := by
        rw [← htrim, Chart.Tag.ofText?, Text.trim_lower, Text.trim_trim, Text.lower_lower]
        rfl
      have hroute : routeOf p (some l) = ((chartRoute? p (Text.lower (c :: s))).or
          (graphRoute? p (Text.lower (c :: s)))).getD (if p.highlighting then
            .highlighted (Text.lower (c :: s)) p.theme else .plain) := by
        rw [routeOf, Option.map_some, htrim]
        rfl
      have hother := other_route_ne_chart p (Text.lower (c :: s)) tag
      rw [hroute, chartRoute?, hsame]
      by_cases hcharts : p.charts
      · cases Chart.Tag.ofText? l with
        | none => simpa [hcharts] using hother
        | some known => simp [hcharts]
      · simpa [hcharts] using hother

end Render

namespace Chart

/-! ## Tables without names -/

/-- The first line with a bar of a text has nothing but bars and white space. -/
def HasEmptyHeader (text : Text) : Prop :=
  ∃ above header below, Text.lines (Text.trim text) = above ++ header :: below ∧
    (∀ line ∈ above, '|' ∉ line) ∧ '|' ∈ header ∧ ∀ c ∈ header, c = '|' ∨ isBlank c

theorem headerNames_eq_nil_iff {line : Text} :
    headerNames line = [] ↔ ∀ c ∈ line, c = '|' ∨ isBlank c := by
  rw [headerNames, List.filter_eq_nil_iff, List.forall_mem_map, ← Text.forall_mem_splitOn_iff]
  refine forall₂_congr fun cell _ => ?_
  rw [← Text.trim_eq_nil_iff, Bool.not_eq_true, Bool.not_eq_false', List.isEmpty_iff]

theorem filter_hasBar_eq_cons_iff {lines rest : List Text} {header : Text} :
    lines.filter hasBar = header :: rest ↔ ∃ above below, lines = above ++ header :: below ∧
      (∀ line ∈ above, '|' ∉ line) ∧ '|' ∈ header ∧ below.filter hasBar = rest := by
  simp only [List.filter_eq_cons_iff, hasBar, List.contains_iff_mem]

/-- A table is refused for the names that its header does not have, and for nothing else. -/
theorem readTable_eq_error_iff {text : Text} (hbar : '|' ∈ text) {e : Error} :
    readTable text = .error e ↔ e = .emptyHeader ∧ HasEmptyHeader text := by
  rw [readTable]
  cases htable : (Text.lines (Text.trim text)).filter hasBar with
  | nil =>
    obtain ⟨line, hline, hmem⟩ := Text.exists_mem_lines (Text.mem_trim hbar (by decide)) (by decide)
    exact absurd (List.contains_iff_mem.2 hmem) (List.filter_eq_nil_iff.1 htable line hline)
  | cons header rest =>
    have hempty : HasEmptyHeader text ↔ headerNames header = [] := by
      rw [headerNames_eq_nil_iff]
      constructor
      · rintro ⟨above, header', below, hlines, habove, hmem, hblank⟩
        have hfirst := filter_hasBar_eq_cons_iff.2 ⟨above, below, hlines, habove, hmem, rfl⟩
        cases htable.symm.trans hfirst
        exact hblank
      · intro hblank
        obtain ⟨above, below, hlines, habove, hmem, -⟩ := filter_hasBar_eq_cons_iff.1 htable
        exact ⟨above, header, below, hlines, habove, hmem, hblank⟩
    rw [hempty]
    cases hnames : headerNames header with
    | nil => simp [hnames, eq_comm]
    | cons x keys => simp [hnames]

/-! ## Refusals -/

/-- The reasons for which a chart block with a text and a tag is refused. -/
inductive Refuses (text tag : Text) : Error → Prop
  | unsupportedTag (htag : ∀ known : Tag, Text.lower (Text.trim tag) ≠ known.name) :
    Refuses text tag (.unsupportedTag (Text.lower (Text.trim tag)))
  | malformedJson (htag : Text.lower (Text.trim tag) = Tag.chartJson.name)
    (hshape : ¬ IsDescription text) : Refuses text tag .malformedJson
  | emptyHeader (htag : Text.lower (Text.trim tag) = Tag.chart.name ∨
      Text.lower (Text.trim tag) = Tag.chartTable.name)
    (hheader : HasEmptyHeader text) : Refuses text tag .emptyHeader

theorem read_of_ofText?_eq_none {text tag : Text} (h : Tag.ofText? tag = none) :
    Description.read text tag = .error (.unsupportedTag (Text.lower (Text.trim tag))) := by
  rw [Description.read, Dialect.ofBlock, h]
  rfl

theorem read_chartJson_eq_error_iff {text tag : Text} {e : Error}
    (h : Tag.ofText? tag = some .chartJson) :
    Description.read text tag = .error e ↔ e = .malformedJson ∧ ¬ IsDescription text := by
  have hread : Description.read text tag = Description.read text Tag.chartJson.name := by
    rw [Description.read, Dialect.ofBlock, h]
    rfl
  rw [hread, Description.read_chartJson, ← isSome_read?_iff_isDescription]
  cases Json.read? Description.decode text with
  | none => simp [eq_comm]
  | some c => simp

theorem read_chart_eq_error_iff {text tag : Text} {e : Error}
    (h : Tag.ofText? tag = some .chart ∨ Tag.ofText? tag = some .chartTable) :
    Description.read text tag = .error e ↔ e = .emptyHeader ∧ HasEmptyHeader text := by
  by_cases hbar : '|' ∈ text
  · rw [read_of_mem_bar hbar h, readTable_eq_error_iff hbar]
  · rw [read_of_not_mem_bar hbar h]
    refine iff_of_false nofun ?_
    rintro ⟨-, above, header, below, hlines, -, hheader, -⟩
    have hline : header ∈ Text.lines (Text.trim text) := by simp [hlines]
    exact hbar (Text.mem_of_mem_trim (Text.mem_of_mem_lines hline hheader))

theorem refuses_of_read {text tag : Text} {e : Error} (h : Description.read text tag = .error e) :
    Refuses text tag e := by
  cases htag : Tag.ofText? tag with
  | none =>
    rw [read_of_ofText?_eq_none htag] at h
    cases h
    exact .unsupportedTag (Tag.ofText?_eq_none_iff.1 htag)
  | some known =>
    have hname := Tag.ofText?_eq_some_iff.1 htag
    cases known with
    | chart =>
      obtain ⟨rfl, hheader⟩ := (read_chart_eq_error_iff (.inl htag)).1 h
      exact .emptyHeader (.inl hname) hheader
    | chartJson =>
      obtain ⟨rfl, hshape⟩ := (read_chartJson_eq_error_iff htag).1 h
      exact .malformedJson hname hshape
    | chartTable =>
      obtain ⟨rfl, hheader⟩ := (read_chart_eq_error_iff (.inr htag)).1 h
      exact .emptyHeader (.inr hname) hheader

theorem Refuses.read {text tag : Text} {e : Error} (h : Refuses text tag e) :
    Description.read text tag = .error e := by
  cases h with
  | unsupportedTag htag => exact read_of_ofText?_eq_none (Tag.ofText?_eq_none_iff.2 htag)
  | malformedJson htag hshape =>
    exact (read_chartJson_eq_error_iff (Tag.ofText?_eq_some_iff.2 htag)).2 ⟨rfl, hshape⟩
  | emptyHeader htag hheader =>
    exact (read_chart_eq_error_iff (htag.imp Tag.ofText?_eq_some_iff.2 Tag.ofText?_eq_some_iff.2)).2
      ⟨rfl, hheader⟩

/-- **A chart block is refused for one of three reasons and for no other.** That there is no table,
no data or no kind is never found in reading it, and every tag that a language is routed with is
supported. -/
theorem read_eq_error_iff (text tag : Text) :
    (∀ e, Description.read text tag = .error e ↔ Refuses text tag e) ∧
      (∀ e ∈ [Error.missingHeader, .noData, .noKind], Description.read text tag ≠ .error e) ∧
      (∀ p language known, Render.routeOf p language = .chart known ↔
        p.charts ∧ ∃ l, language = some l ∧ Text.lower (Text.trim l) = known.name) ∧
      ∀ (known : Tag) (u : Text),
        Description.read text known.name ≠ .error (.unsupportedTag u) := by
  refine ⟨fun e => ⟨refuses_of_read, Refuses.read⟩, fun e he h => ?_, fun p language known => ?_,
    fun known u h => ?_⟩
  · have hrefuses := refuses_of_read h
    cases hrefuses <;> simp at he
  · simp only [Render.routeOf_eq_chart_iff, Tag.ofText?_eq_some_iff]
  · cases refuses_of_read h with
    | unsupportedTag htag =>
      exact htag known (Tag.ofText?_eq_some_iff.1 known.ofText?_name)

example : Description.read "title: Sales\n | |\n|---|\n| 1 |".toList "chart".toList =
    .error .emptyHeader := rfl

end Chart

end MarkdownPrep
