import MarkdownPrep.Proofs.Chart.WrittenTable

/-!
# The order of setting lines

`Reordered` says that lines change places so that those about the same thing stay in order. What
different settings do is done to different parts of a description (`Description.apply_comm`), and
the data are read last, so a chart block of lines is read as the same description whatever the
order of its lines (`read_of_reordered`).
-/

namespace MarkdownPrep.Chart

/-- What a setting is about. The parts of the number style are one thing, as each of them is set in
the style that is there. -/
def Setting.topic : Setting → Text
  | .kind _ => "type".toList
  | .title _ => "title".toList
  | .description _ => "description".toList
  | .xAxisLabel _ => "xaxislabel".toList
  | .yAxisLabel _ => "yaxislabel".toList
  | .yAxisRightLabel _ => "yaxisrightlabel".toList
  | .xKey _ => "xkey".toList
  | .stacked _ => "stacked".toList
  | .showLegend _ => "showlegend".toList
  | .showGrid _ => "showgrid".toList
  | .height _ => "height".toList
  | .width _ => "width".toList
  | .numbers _ => "formatter".toList
  | .colors _ => "colors".toList
  | .labels _ => "labels".toList
  | .dataKeys _ => "datakeys".toList
  | .data _ => "data".toList
  | .series _ => "series".toList
  | .referenceLines _ => "referencelines".toList

/-- The keys of the settings of the number style. -/
def Setting.styleKeys : List Text :=
  ["formatter".toList, "valueformat".toList, "valueprefix".toList, "valuesuffix".toList,
    "valuecurrency".toList, "valuedecimals".toList]

/-- What the lines with the key `key`, in small letters, are about. -/
def Setting.topicOf (key : Text) : Text :=
  if styleKeys.contains key then "formatter".toList else key

/-- What a line is about. A line without a colon is about nothing. -/
def lineTopic? (line : Text) : Option Text :=
  (Text.splitOnce? ':' line).map fun (key, _) => Setting.topicOf (Setting.keyOf key)

/-- The lines `ls` in an order in which those about the same thing stay in order. -/
structure Reordered (ls ls' : List Text) : Prop where
  perm : ls.Perm ls'
  inOrder : ∀ topic,
    ls.filter (lineTopic? · = some topic) = ls'.filter (lineTopic? · = some topic)

instance (ls ls' : List Text) : Decidable (Reordered ls ls') :=
  decidable_of_iff (ls.Perm ls' ∧ ∀ topic ∈ ls.filterMap lineTopic?,
      ls.filter (lineTopic? · = some topic) = ls'.filter (lineTopic? · = some topic)) <| by
    refine ⟨fun ⟨hperm, horder⟩ => ⟨hperm, fun topic => ?_⟩,
      fun h => ⟨h.perm, fun topic _ => h.inOrder topic⟩⟩
    by_cases hmem : topic ∈ ls.filterMap lineTopic?
    · exact horder topic hmem
    · have hnone : ∀ l ∈ ls, lineTopic? l ≠ some topic := fun l hl htopic =>
        hmem (List.mem_filterMap.2 ⟨l, hl, htopic⟩)
      rw [List.filter_eq_nil_iff.2 fun l hl => by simpa using hnone l hl,
        List.filter_eq_nil_iff.2 fun l hl => by simpa using hnone l (hperm.mem_iff.2 hl)]

/-! ## Settings about different things -/

/-- Settings about different things may be made in either order. -/
theorem Description.apply_comm (c : Description) {s t : Setting} (h : s.topic ≠ t.topic) :
    (c.apply s).apply t = (c.apply t).apply s := by
  cases s <;> cases t <;> first | rfl | exact absurd rfl h

/-- A reader that gives only settings about one thing. -/
def Setting.ReadsAbout (topic : Text) (reader : Text → Option Setting) : Prop :=
  ∀ value s, reader value = some s → s.topic = topic

theorem Setting.readsAbout_some {topic : Text} {set : Text → Setting}
    (h : ∀ value, (set value).topic = topic) :
    ReadsAbout topic fun value => some (set value) := by
  rintro value _ ⟨⟩
  exact h value

theorem Setting.readsAbout_map {α : Type} {topic : Text} {read? : Text → Option α}
    {set : α → Setting} (h : ∀ a, (set a).topic = topic) :
    ReadsAbout topic fun value => (read? value).map set := by
  intro value s hs
  obtain ⟨a, _, rfl⟩ := Option.map_eq_some_iff.1 hs
  exact h a

theorem Setting.readsAbout_readers : ∀ e ∈ readers, ReadsAbout (topicOf e.1) e.2 := by
  simp only [readers, List.forall_mem_cons]
  exact ⟨readsAbout_map fun _ => rfl, readsAbout_some fun _ => rfl, readsAbout_some fun _ => rfl,
    readsAbout_some fun _ => rfl, readsAbout_some fun _ => rfl, readsAbout_some fun _ => rfl,
    readsAbout_some fun _ => rfl, readsAbout_some fun _ => rfl, readsAbout_some fun _ => rfl,
    readsAbout_some fun _ => rfl, readsAbout_map fun _ => rfl, readsAbout_map fun _ => rfl,
    readsAbout_map fun _ => rfl, readsAbout_some fun _ => rfl, readsAbout_some fun _ => rfl,
    readsAbout_some fun _ => rfl, readsAbout_map fun _ => rfl, readsAbout_map fun _ => rfl,
    readsAbout_some fun _ => rfl, readsAbout_some fun _ => rfl, readsAbout_some fun _ => rfl,
    readsAbout_map fun _ => rfl, readsAbout_map fun _ => rfl, readsAbout_map fun _ => rfl, nofun⟩

theorem Setting.topic_of_read? {key value : Text} {s : Setting} (h : read? key value = some s) :
    s.topic = topicOf (keyOf key) := by
  rw [read?] at h
  split at h
  · cases h
  · obtain ⟨reader, hreader, h⟩ := Option.bind_eq_some_iff.1 h
    obtain ⟨front, rest, hreaders, -⟩ := List.lookup_eq_some_iff.1 hreader
    have he : (keyOf key, reader) ∈ readers := by
      rw [hreaders]
      exact List.mem_append_right _ List.mem_cons_self
    exact readsAbout_readers _ he _ _ h

/-- Lines about different things may be carried out in either order. -/
theorem Description.set_comm (c : Description) {key key' : Text}
    (h : Setting.topicOf (Setting.keyOf key) ≠ Setting.topicOf (Setting.keyOf key'))
    (value value' : Text) :
    (c.set key value).set key' value' = (c.set key' value').set key value := by
  simp only [set]
  cases hs : Setting.read? key value with
  | none => rfl
  | some s =>
    cases ht : Setting.read? key' value' with
    | none => rfl
    | some t =>
      exact c.apply_comm (by rwa [Setting.topic_of_read? hs, Setting.topic_of_read? ht])

/-! ## Lines about different things -/

theorem stepLine_of_topic_eq_none (state : Description × Option LineData) {line : Text}
    (h : lineTopic? line = none) : stepLine state line = state := by
  rw [stepLine, Option.map_eq_none_iff.1 h]

theorem stepLine_comm (state : Description × Option LineData) {l m : Text}
    (h : lineTopic? l ≠ lineTopic? m) :
    stepLine (stepLine state l) m = stepLine (stepLine state m) l := by
  cases hl : Text.splitOnce? ':' l with
  | none =>
    have hnone : lineTopic? l = none := Option.map_eq_none_iff.2 hl
    rw [stepLine_of_topic_eq_none _ hnone, stepLine_of_topic_eq_none _ hnone]
  | some line =>
    cases hm : Text.splitOnce? ':' m with
    | none =>
      have hnone : lineTopic? m = none := Option.map_eq_none_iff.2 hm
      rw [stepLine_of_topic_eq_none _ hnone, stepLine_of_topic_eq_none _ hnone]
    | some line' =>
      have htopic : Setting.topicOf (Setting.keyOf line.1) ≠
          Setting.topicOf (Setting.keyOf line'.1) := by
        simpa [lineTopic?, hl, hm] using h
      simp only [stepLine, hl, hm]
      -- data are kept apart from the description, and two lines of data are about the same thing
      by_cases hdata : Setting.keyOf line.1 = dataKey <;>
        by_cases hdata' : Setting.keyOf line'.1 = dataKey
      · exact absurd (by rw [hdata, hdata']) htopic
      · simp only [hdata, hdata', if_true, if_false]
      · simp only [hdata, hdata', if_true, if_false]
      · simp only [hdata, hdata', if_false, Description.set_comm _ htopic]

section
variable {σ α κ : Type} {f : σ → α → σ} {topic? : α → Option κ}
  (hcomm : ∀ s a b, topic? a ≠ topic? b → f (f s a) b = f (f s b) a)
include hcomm

/-- A step may come before all steps that are about other things. -/
theorem foldl_step {a : α} {front : List α} (h : ∀ b ∈ front, topic? b ≠ topic? a) (s : σ) :
    f (front.foldl f s) a = front.foldl f (f s a) := by
  induction front generalizing s with
  | nil => rfl
  | cons b front ih =>
    rw [List.forall_mem_cons] at h
    rw [List.foldl_cons, ih h.2, hcomm s b a h.1]
    rfl

/-- Steps that may be done in either order if they are about different things give the same result
in any order that keeps those about the same thing in order. Steps about nothing do nothing. -/
theorem foldl_eq_of_filter_eq [DecidableEq κ] (hnone : ∀ s a, topic? a = none → f s a = s)
    {as bs : List α} (h : ∀ k, as.filter (topic? · = some k) = bs.filter (topic? · = some k))
    (s : σ) : as.foldl f s = bs.foldl f s := by
  induction as generalizing bs s with
  | nil =>
    have hidle : ∀ b ∈ bs, topic? b = none := fun b hb => by
      cases htopic : topic? b with
      | none => rfl
      | some k => exact absurd (List.filter_eq_nil_iff.1 (h k).symm b hb) (by simp [htopic])
    exact (List.foldlRecOn (motive := (· = s)) bs f rfl
      fun s' hs b hb => by rw [hnone s' b (hidle b hb), hs]).symm
  | cons a as ih =>
    cases htopic : topic? a with
    | none =>
      rw [List.foldl_cons, hnone s a htopic]
      exact ih (fun k => by simpa [List.filter_cons, htopic] using h k) s
    | some k =>
      -- the first of the other steps about the same thing is this one, and it may come first
      have hk := h k
      rw [List.filter_cons_of_pos (by simpa using htopic)] at hk
      obtain ⟨front, rest, rfl, hfront, -, hrest⟩ := List.filter_eq_cons_iff.1 hk.symm
      have hother : ∀ b ∈ front, topic? b ≠ topic? a := fun b hb => by
        simpa [htopic] using hfront b hb
      rw [List.foldl_cons, List.foldl_append, List.foldl_cons, foldl_step hcomm hother,
        ← List.foldl_append]
      refine ih (fun k' => ?_) (f s a)
      by_cases heq : k' = k
      · subst heq
        rw [List.filter_append, List.filter_eq_nil_iff.2 hfront, List.nil_append, hrest]
      · have hnot : topic? a ≠ some k' := by simpa [htopic] using Ne.symm heq
        have hk' := h k'
        rwa [List.filter_cons_of_neg (by simpa using hnot), List.filter_append,
          List.filter_cons_of_neg (by simpa using hnot), ← List.filter_append] at hk'

end

/-! ## Blocks of lines -/

/-- White space around a line does not matter. -/
theorem stepLine_trim (state : Description × Option LineData) (line : Text) :
    stepLine state (Text.trim line) = stepLine state line := by
  obtain ⟨front, back, hline, hfront, hback⟩ := Text.exists_trim_append line
  conv_rhs => rw [hline]
  rw [stepLine, stepLine, Text.splitOnce?_append_right (colon_not_mem_of_blank hback),
    Text.splitOnce?_append_left (colon_not_mem_of_blank hfront)]
  cases Text.splitOnce? ':' (Text.trim line) with
  | none => rfl
  | some line =>
    simp only [Option.map_some, Description.set, Setting.read?, Setting.keyOf,
      Text.trim_blank_append hfront, Text.trim_append_blank _ hback]
    rfl

/-- A block is carried out line by line, white space around the lines and lines of white space
aside. -/
theorem foldl_stepLine_contents (text : Text) (state : Description × Option LineData) :
    (Text.contents text).foldl stepLine state = (Text.lines text).foldl stepLine state :=
  Text.foldl_filter_map_trim stepLine_trim (fun _ => rfl) (Text.lines text) state

theorem foldl_stepLine_lines (text : Text) (state : Description × Option LineData) :
    (Text.lines (Text.trim text)).foldl stepLine state =
      ((Text.lines text).map Text.trim).foldl stepLine state := by
  rw [← foldl_stepLine_contents, Text.contents_trim, foldl_stepLine_contents, List.foldl_map]
  simp only [stepLine_trim]

theorem read_of_not_mem_bar {s tag : Text} (hs : '|' ∉ s)
    (htag : Tag.ofText? tag = some .chart ∨ Tag.ofText? tag = some .chartTable) :
    Description.read s tag = .ok (readLines s) := by
  have hany : (Text.lines (Text.trim s)).any hasBar = false := by
    refine List.any_eq_false.2 fun l hl hbar => hs ?_
    exact Text.mem_of_mem_trim (Text.mem_of_mem_lines hl (List.contains_iff_mem.1 hbar))
  have hdialect : Dialect.ofBlock s tag = .ok .lines := by
    rcases htag with htag | htag <;> simp [Dialect.ofBlock, htag, hany]
  rw [Description.read, hdialect]
  rfl

/-- **The order of the lines of a chart block does not matter**, as long as lines about the same
thing stay in order. White space around lines does not count, nor does how they end. -/
theorem read_of_reordered {s t tag : Text} (hs : '|' ∉ s)
    (htag : Tag.ofText? tag = some .chart ∨ Tag.ofText? tag = some .chartTable)
    (h : Reordered ((Text.lines s).map Text.trim) ((Text.lines t).map Text.trim)) :
    ∃ c, Description.read s tag = .ok c ∧ Description.read t tag = .ok c := by
  have ht : '|' ∉ t := by
    intro hbar
    obtain ⟨l, hl, hbar⟩ := Text.exists_mem_lines hbar (by decide)
    have hline := h.perm.mem_iff.2 (List.mem_map_of_mem hl)
    obtain ⟨m, hm, htrim⟩ := List.mem_map.1 hline
    have hbar := Text.mem_trim hbar (by decide)
    exact hs (Text.mem_of_mem_lines hm (Text.mem_of_mem_trim (htrim ▸ hbar)))
  have hfold := foldl_eq_of_filter_eq (fun state _ _ => stepLine_comm state)
    (fun state _ => stepLine_of_topic_eq_none state) h.inOrder
    ({ colors := some standardColors }, none)
  have hsame : readLines s = readLines t := by
    simp only [readLines, foldl_stepLine_lines, hfold]
  exact ⟨readLines s, read_of_not_mem_bar hs htag, hsame ▸ read_of_not_mem_bar ht htag⟩

/-- A block with two lines of prefixes, and labels above numbers. -/
def numbersBlock : Text :=
  (" Type: bar\nlabels: a\ndata: [3, 4]\nxKey: q\n" ++
    "valuePrefix: x\nformatter: percent\nvalueprefix: y\r").toList

/-- The same block with its data first, and the type and the key below the number style. -/
def numbersBlockReordered : Text :=
  ("data: [3, 4]\nvaluePrefix: x\n\tformatter: percent\nvalueprefix: y\r\n" ++
    "labels: a\nxKey: q\nType: bar\n").toList

theorem read_of_reordered_of_numbers :
    '|' ∉ numbersBlock ∧ Tag.ofText? "Chart".toList = some .chart ∧
      Reordered ((Text.lines numbersBlock).map Text.trim)
        ((Text.lines numbersBlockReordered).map Text.trim) ∧
      ∃ c, Description.read numbersBlock "Chart".toList = .ok c ∧
        Description.read numbersBlockReordered "Chart".toList = .ok c := by
  have hbar : '|' ∉ numbersBlock := by decide +kernel
  have htag : Tag.ofText? "Chart".toList = some .chart := by decide +kernel
  have horder : Reordered ((Text.lines numbersBlock).map Text.trim)
      ((Text.lines numbersBlockReordered).map Text.trim) := by decide +kernel
  exact ⟨hbar, htag, horder, read_of_reordered hbar (.inl htag) horder⟩

end MarkdownPrep.Chart
