import MarkdownPrep.Proofs.Chart.Reordering

/-!
# Beginnings of chart blocks

What a beginning of a chart block is read as, when the whole block can be drawn. A beginning with a
bar differs from the block in the lines below its last bar only, so with two table lines it has the
header and the settings of the block, and if it cannot be drawn it has no row of data
(`rows_of_beginning`). A beginning of a block of lines can be drawn unless a line with the data or
the kind of the chart is still to come (`check_of_beginning`).
-/

namespace MarkdownPrep.Chart

/-- The lines of the table of a text, without white space around them. -/
def tableLines (s : Text) : List Text := (Text.contents s).filter hasBar

/-- A line of the text `t` that the text `s` does not have in its place. -/
def Missing (s t line : Text) : Prop :=
  ∃ i : Nat, (Text.fullLines t)[i]? = some line ∧ (Text.fullLines s)[i]? ≠ some line

theorem check_congr {c d : Description} (hdata : c.data.isEmpty = d.data.isEmpty)
    (hkind : c.kind = d.kind) : c.check = d.check := by
  rw [Description.check, Description.check, hdata, hkind]

/-! ## White space around the lines of a table -/

theorem hasBar_trim (line : Text) : hasBar (Text.trim line) = hasBar line :=
  Bool.eq_iff_iff.2 <| by
    rw [hasBar, hasBar, List.contains_iff_mem, List.contains_iff_mem]
    exact ⟨Text.mem_of_mem_trim, fun h => Text.mem_trim h (by decide)⟩

theorem cellsOf_trim (line : Text) : cellsOf (Text.trim line) = cellsOf line := by
  rw [cellsOf, cellsOf, Text.map_trim_splitOn_trim (by decide)]

theorem headerNames_trim (line : Text) : headerNames (Text.trim line) = headerNames line := by
  rw [headerNames, headerNames, Text.map_trim_splitOn_trim (by decide)]

theorem rowRecord?_trim (names : List Text) (line : Text) :
    rowRecord? names (Text.trim line) = rowRecord? names line := by
  rw [rowRecord?, rowRecord?, cellsOf_trim]

theorem Description.setLine_trim (c : Description) (line : Text) :
    c.setLine (Text.trim line) = c.setLine line := by
  obtain ⟨front, back, hline, hfront, hback⟩ := Text.exists_trim_append line
  conv_rhs => rw [hline]
  rw [setLine_append_blank hback, setLine_blank_append hfront]

theorem isEmpty_of_hasBar {line : Text} (h : hasBar line) : line.isEmpty = false := by
  cases line with
  | nil => cases h
  | cons c line => rfl

/-- The description that a table with these names and rows has to begin with. -/
def rowsBase (x : Text) (keys rows : List Text) : Description where
  data := rows.filterMap (rowRecord? (x :: keys))
  colors := some standardColors
  xKey := some x
  dataKeys := some keys

/-- What the lines of a block with a table are read as. -/
def tableOf (ls : List Text) : Except Error Description :=
  match ls.filter hasBar with
  | [] => .error .missingHeader
  | header :: rest =>
    match headerNames header with
    | [] => .error .emptyHeader
    | x :: keys =>
      .ok ((ls.takeWhile (!hasBar ·)).foldl Description.setLine
        (rowsBase x keys (rest.drop 1))).withColors

theorem filter_hasBar_contents (ls : List Text) :
    ((ls.map Text.trim).filter (!·.isEmpty)).filter hasBar = (ls.filter hasBar).map Text.trim := by
  have hbar : ∀ l, (hasBar l && !l.isEmpty) = hasBar l := fun l => by
    cases h : hasBar l with
    | false => rfl
    | true => rw [isEmpty_of_hasBar h]; rfl
  rw [List.filter_filter, List.filter_congr fun l _ => hbar l, List.filter_map]
  exact congrArg _ (List.filter_congr fun l _ => hasBar_trim l)

theorem tableLines_eq (s : Text) :
    tableLines s = ((Text.lines s).map Text.trim).filter hasBar := by
  rw [tableLines, Text.contents, filter_hasBar_contents, List.filter_map]
  exact congrArg _ (List.filter_congr fun l _ => (hasBar_trim l).symm)

theorem takeWhile_hasBar_contents (ls : List Text) :
    ((ls.map Text.trim).filter (!·.isEmpty)).takeWhile (!hasBar ·) =
      ((ls.takeWhile (!hasBar ·)).map Text.trim).filter (!·.isEmpty) := by
  induction ls with
  | nil => rfl
  | cons l ls ih =>
    rw [List.map_cons]
    cases hbar : hasBar l with
    | false =>
      rw [List.takeWhile_cons_of_pos (by simp [hbar]), List.map_cons]
      by_cases hl : (Text.trim l).isEmpty
      · rw [List.filter_cons_of_neg (by simp [hl]), List.filter_cons_of_neg (by simp [hl]), ih]
      · rw [List.filter_cons_of_pos (by simp [hl]), List.filter_cons_of_pos (by simp [hl]),
          List.takeWhile_cons_of_pos (by simp [hasBar_trim, hbar]), ih]
    | true =>
      have htrim : hasBar (Text.trim l) := (hasBar_trim l).trans hbar
      rw [List.takeWhile_cons_of_neg (by simp [hbar]),
        List.filter_cons_of_pos (by simp [isEmpty_of_hasBar htrim]),
        List.takeWhile_cons_of_neg (by simp [htrim])]
      rfl

/-- A block with a table is read line by line, white space around the lines and lines of white space
aside. -/
theorem readTable_eq (s : Text) : readTable s = tableOf (Text.contents s) := by
  have hsame : ∀ ls, tableOf ((ls.map Text.trim).filter (!·.isEmpty)) = tableOf ls := fun ls => by
    rw [tableOf, tableOf, filter_hasBar_contents, takeWhile_hasBar_contents]
    cases ls.filter hasBar with
    | nil => rfl
    | cons header rest =>
      simp only [List.map_cons, headerNames_trim]
      cases headerNames header with
      | nil => rfl
      | cons x keys =>
        have hrows : rowsBase x keys ((rest.map Text.trim).drop 1) =
            rowsBase x keys (rest.drop 1) := by
          simp only [rowsBase, ← List.map_drop, List.filterMap_map]
          congr 2
          exact funext fun l => rowRecord?_trim _ l
        simp only [hrows]
        rw [Text.foldl_filter_map_trim Description.setLine_trim fun _ => rfl]
  rw [← Text.contents_trim, Text.contents, hsame]
  rfl

/-! ## Tables -/

theorem read_of_mem_bar {s tag : Text} (hs : '|' ∈ s)
    (htag : Tag.ofText? tag = some .chart ∨ Tag.ofText? tag = some .chartTable) :
    Description.read s tag = readTable s := by
  have hany : (Text.lines (Text.trim s)).any hasBar = true := by
    obtain ⟨l, hl, hbar⟩ := Text.exists_mem_lines (Text.mem_trim hs (by decide)) (by decide)
    exact List.any_eq_true.2 ⟨l, hl, List.contains_iff_mem.2 hbar⟩
  have hdialect : Dialect.ofBlock s tag = .ok .table := by
    rcases htag with htag | htag <;> simp [Dialect.ofBlock, htag, hany]
  rw [Description.read, hdialect]
  rfl

theorem tableLines_ne_nil {s : Text} (hs : '|' ∈ s) : tableLines s ≠ [] := by
  obtain ⟨l, hl, hbar⟩ := Text.exists_mem_lines hs (by decide)
  have hline : hasBar (Text.trim l) := (hasBar_trim l).trans (List.contains_iff_mem.2 hbar)
  rw [tableLines_eq]
  exact List.ne_nil_of_mem (List.mem_filter.2 ⟨List.mem_map_of_mem hl, hline⟩)

/-- Two descriptions of one kind that have either the same data or the data `rows` and `rows'`. -/
structure AlikeBut (rows rows' : List Record) (c d : Description) : Prop where
  kind : c.kind = d.kind
  data : c.data = d.data ∨ c.data = rows ∧ d.data = rows'

namespace AlikeBut

variable {rows rows' : List Record} {c d : Description}

theorem apply (h : AlikeBut rows rows' c d) (s : Setting) :
    AlikeBut rows rows' (c.apply s) (d.apply s) := by
  cases s with
  | kind k => exact ⟨rfl, h.data⟩
  | data rows => exact ⟨h.kind, .inl rfl⟩
  | _ => exact ⟨h.kind, h.data⟩

theorem setLine (h : AlikeBut rows rows' c d) (line : Text) :
    AlikeBut rows rows' (c.setLine line) (d.setLine line) := by
  rw [Description.setLine, Description.setLine]
  cases Text.splitOnce? ':' line with
  | none => exact h
  | some kv =>
    simp only [Description.set]
    cases Setting.read? kv.1 kv.2 with
    | none => exact h
    | some s => exact h.apply s

theorem foldl_setLine (h : AlikeBut rows rows' c d) (ls : List Text) :
    AlikeBut rows rows' (ls.foldl Description.setLine c) (ls.foldl Description.setLine d) := by
  induction ls generalizing c d with
  | nil => exact h
  | cons l ls ih => exact ih (h.setLine l)

end AlikeBut

/-- Below the first bar there are only rows. -/
theorem tableOf_append {front rest : List Text} {header : Text}
    (h : front.filter hasBar = header :: rest) (below : List Text) :
    tableOf (front ++ below) =
      match headerNames header with
      | [] => .error .emptyHeader
      | x :: keys =>
        .ok ((front.takeWhile (!hasBar ·)).foldl Description.setLine
          (rowsBase x keys ((rest ++ below.filter hasBar).drop 1))).withColors := by
  have hstop : (front ++ below).takeWhile (!hasBar ·) = front.takeWhile (!hasBar ·) := by
    obtain ⟨above, more, rfl, habove, hheader, -⟩ := List.filter_eq_cons_iff.1 h
    have habove' : ∀ l ∈ above, (!hasBar l) = true := fun l hl => by simpa using habove l hl
    rw [List.append_assoc, List.takeWhile_append_of_pos habove',
      List.takeWhile_append_of_pos habove', List.cons_append,
      List.takeWhile_cons_of_neg (by simp [hheader]),
      List.takeWhile_cons_of_neg (by simp [hheader])]
  rw [tableOf, List.filter_append, h, hstop]
  rfl

/-- A beginning with two table lines has the kind of the chart, and data unless its rows are
empty. -/
theorem rows_of_beginning {s t : Text} {c : Description} (hs : s <+: t)
    (hread : readTable t = .ok c) (hcheck : c.check = .ok ()) (hlines : 2 ≤ (tableLines s).length) :
    ∃ d, readTable s = .ok d ∧ d.kind = c.kind ∧
      (d.data = [] → ∀ row ∈ (tableLines s).drop 2, (cellsOf row).all List.isEmpty) := by
  obtain ⟨more, rfl⟩ := hs
  obtain ⟨front, last, below, hshort, hlast, hlong⟩ := Text.exists_contents_append s more
  obtain ⟨header, rest, hheader⟩ : ∃ header rest, front.filter hasBar = header :: rest := by
    rw [tableLines, hshort, List.filter_append, List.length_append] at hlines
    have := List.length_filter_le hasBar last
    exact List.exists_cons_of_length_pos (by omega)
  rw [readTable_eq, hlong, tableOf_append hheader] at hread
  cases hnames : headerNames header with
  | nil => simp [hnames] at hread
  | cons x keys =>
    simp only [hnames, Except.ok.injEq] at hread
    have halike := AlikeBut.foldl_setLine
      (c := rowsBase x keys ((rest ++ last.filter hasBar).drop 1))
      (d := rowsBase x keys ((rest ++ below.filter hasBar).drop 1)) ⟨rfl, .inr ⟨rfl, rfl⟩⟩
      (front.takeWhile (!hasBar ·))
    refine ⟨_, by rw [readTable_eq, hshort, tableOf_append hheader, hnames], ?_, fun hnone => ?_⟩
    · rw [← hread]
      exact halike.kind
    · have hdata : c.data ≠ [] := fun hnone => by simp [Description.check, hnone] at hcheck
      obtain hsame | ⟨hrows, -⟩ := halike.data
      · exact absurd (hsame.symm.trans hnone) (by rw [← hread] at hdata; exact hdata)
      · have hempty := List.filterMap_eq_nil_iff.1 (hrows.symm.trans hnone)
        rw [tableLines, hshort, List.filter_append, hheader]
        intro row hrow
        by_contra hfilled
        have := hempty row hrow
        simp [rowRecord?, hfilled] at this

/-! ## Lines -/

/-- True when the lines about `topic` decide whether a chart can be drawn. -/
def Decisive (topic : Text) : Prop := topic = "data".toList ∨ topic = "type".toList

theorem kind_apply (c : Description) {s : Setting} (h : ¬ Decisive s.topic) :
    (c.apply s).kind = c.kind := by
  cases s with
  | kind k => exact absurd (.inr rfl) h
  | _ => rfl

theorem data_apply (c : Description) {s : Setting} (h : s.topic ≠ "data".toList) :
    (c.apply s).data = c.data := by
  cases s with
  | data rows => exact absurd rfl h
  | _ => rfl

theorem stepLine_of_not_decisive (state : Description × Option LineData) {line : Text}
    (h : ∀ topic ∈ lineTopic? line, ¬ Decisive topic) :
    (stepLine state line).1.kind = state.1.kind ∧ (stepLine state line).2 = state.2 := by
  rw [stepLine]
  cases hsplit : Text.splitOnce? ':' line with
  | none => exact ⟨rfl, rfl⟩
  | some kv =>
    have htopic := h (Setting.topicOf (Setting.keyOf kv.1)) (by simp [lineTopic?, hsplit])
    have hdata : Setting.keyOf kv.1 ≠ dataKey := by
      intro hkey
      rw [hkey] at htopic
      exact htopic (.inl (by decide))
    simp only [hdata, if_false, Description.set]
    cases hread : Setting.read? kv.1 kv.2 with
    | none => exact ⟨rfl, trivial⟩
    | some s => exact ⟨kind_apply _ (by rwa [Setting.topic_of_read? hread]), trivial⟩

theorem foldl_stepLine_of_not_decisive {ls : List Text}
    (h : ∀ line ∈ ls, ∀ topic ∈ lineTopic? line, ¬ Decisive topic)
    (state : Description × Option LineData) :
    (ls.foldl stepLine state).1.kind = state.1.kind ∧ (ls.foldl stepLine state).2 = state.2 := by
  induction ls generalizing state with
  | nil => exact ⟨rfl, rfl⟩
  | cons l ls ih =>
    rw [List.forall_mem_cons] at h
    have hstep := stepLine_of_not_decisive state h.1
    have hrest := ih h.2 (stepLine state l)
    exact ⟨hrest.1.trans hstep.1, hrest.2.trans hstep.2⟩

/-- The data are kept apart until all lines are read. -/
theorem data_foldl_stepLine (ls : List Text) (state : Description × Option LineData) :
    (ls.foldl stepLine state).1.data = state.1.data := by
  induction ls generalizing state with
  | nil => rfl
  | cons l ls ih =>
    rw [List.foldl_cons, ih, stepLine]
    cases Text.splitOnce? ':' l with
    | none => rfl
    | some kv =>
      by_cases hdata : Setting.keyOf kv.1 = dataKey
      · simp only [hdata, if_true]
      · simp only [hdata, if_false, Description.set]
        cases hread : Setting.read? kv.1 kv.2 with
        | none => rfl
        | some s =>
          refine data_apply _ fun htopic => hdata ?_
          rw [Setting.topic_of_read? hread, Setting.topicOf] at htopic
          split at htopic
          · exact absurd htopic (by decide)
          · exact htopic

/-- Whether there are data does not depend on the settings. -/
theorem isEmpty_data_withData (c d : Description) (data : LineData) :
    (c.withData data).data.isEmpty = (d.withData data).data.isEmpty := by
  cases data with
  | records rows => rfl
  | values vs =>
    simp only [Description.withData]
    split
    · simp [labelledRows]
    · rfl

theorem kind_withData (c : Description) (data : LineData) : (c.withData data).kind = c.kind := by
  cases data with
  | records rows => rfl
  | values vs =>
    simp only [Description.withData]
    split <;> rfl

/-- The description and the data after all lines of a block. -/
def stateAfter (s : Text) : Description × Option LineData :=
  (Text.fullLines s).foldl stepLine ({ colors := some standardColors }, none)

theorem readLines_eq (s : Text) : readLines s =
    (match (stateAfter s).2 with
      | some data => (stateAfter s).1.withData data
      | none => (stateAfter s).1).withColors := by
  have hstate : (Text.lines (Text.trim s)).foldl stepLine
      ({ colors := some standardColors }, none) = stateAfter s := by
    rw [stateAfter, ← foldl_stepLine_contents, Text.contents_trim, Text.contents_eq,
      Text.foldl_filter_map_trim stepLine_trim fun _ => rfl]
  rw [← hstate]
  rfl

/-- Blocks of lines with the same data and kind can be drawn equally well. -/
theorem check_readLines_congr {s t : Text} (hkind : (stateAfter s).1.kind = (stateAfter t).1.kind)
    (hdata : (stateAfter s).2 = (stateAfter t).2) : (readLines s).check = (readLines t).check := by
  rw [readLines_eq, readLines_eq, hdata]
  cases (stateAfter t).2 with
  | none =>
    have hnone (u : Text) : (stateAfter u).1.data = [] := data_foldl_stepLine _ _
    exact check_congr (congrArg List.isEmpty ((hnone s).trans (hnone t).symm)) hkind
  | some data =>
    refine check_congr (isEmpty_data_withData _ _ data) ?_
    exact (kind_withData _ data).trans (hkind.trans (kind_withData _ data).symm)

/-- A line about something is about the same thing when more is written at its end. -/
theorem lineTopic?_append {l topic : Text} (h : lineTopic? l = some topic) (u : Text) :
    lineTopic? (l ++ u) = some topic := by
  obtain ⟨kv, hsplit, rfl⟩ := Option.map_eq_some_iff.1 h
  rw [lineTopic?, Text.splitOnce?_append_of_some hsplit]
  rfl

/-- The lines of a text and of a beginning of it go apart where the first line is missing. -/
theorem exists_fullLines_missing {s t : Text} (hs : s <+: t) :
    ∃ ls last rest, Text.fullLines s = ls ++ last ∧ Text.fullLines t = ls ++ rest ∧
      (∀ line ∈ rest, Missing s t line) ∧ ∀ l ∈ last, ∃ u, l ++ u ∈ rest := by
  have missing {ls last rest : List Text} (hshort : Text.fullLines s = ls ++ last)
      (hlong : Text.fullLines t = ls ++ rest)
      (happart : ∀ (i : Nat) line, rest[i]? = some line → last[i]? ≠ some line) :
      ∀ line ∈ rest, Missing s t line := by
    intro line hline
    obtain ⟨i, hi⟩ := List.mem_iff_getElem?.1 hline
    refine ⟨ls.length + i, ?_, ?_⟩
    · rw [hlong, List.getElem?_append_right (by omega), Nat.add_sub_cancel_left, hi]
    · rw [hshort, List.getElem?_append_right (by omega), Nat.add_sub_cancel_left]
      exact happart i line hi
  obtain ⟨more, rfl⟩ := hs
  by_cases hne : s = []
  · have hshort : Text.fullLines s = [] ++ [] := by rw [hne]; rfl
    exact ⟨[], [], _, hshort, rfl, missing hshort rfl (by simp), nofun⟩
  · obtain ⟨ls, l, u, rest, hshort, hlong, -⟩ := Text.exists_fullLines_append hne more
    by_cases hu : u = []
    · rw [hu, List.append_nil, List.append_cons] at hlong
      rw [← List.append_nil (ls ++ [l])] at hshort
      exact ⟨ls ++ [l], [], rest, hshort, hlong, missing hshort hlong (by simp), nofun⟩
    · refine ⟨ls, [l], _, hshort, hlong, missing hshort hlong ?_, ?_⟩
      · intro i line hi
        cases i with
        | zero =>
          obtain rfl : l ++ u = line := by simpa using hi
          simpa using hu
        | succ i => simp
      · exact List.forall_mem_singleton.2 ⟨u, List.mem_cons_self⟩

/-- A beginning of a block of lines can be drawn like the block, unless a line with the data or the
kind of the chart is still to come. -/
theorem check_of_beginning {s t : Text} (hs : s <+: t)
    (h : ∀ line, Missing s t line → ∀ topic ∈ lineTopic? line, ¬ Decisive topic) :
    (readLines s).check = (readLines t).check := by
  obtain ⟨ls, last, rest, hshort, hlong, hmissing, hlast⟩ := exists_fullLines_missing hs
  have hidle : ∀ line ∈ last, ∀ topic ∈ lineTopic? line, ¬ Decisive topic := by
    intro l hl topic htopic
    obtain ⟨u, hu⟩ := hlast l hl
    exact h _ (hmissing _ hu) topic (lineTopic?_append htopic u)
  have hidle' : ∀ line ∈ rest, ∀ topic ∈ lineTopic? line, ¬ Decisive topic :=
    fun line hline => h line (hmissing line hline)
  have hstate := foldl_stepLine_of_not_decisive hidle
  have hstate' := foldl_stepLine_of_not_decisive hidle'
  refine check_readLines_congr ?_ ?_
  · rw [stateAfter, stateAfter, hshort, hlong, List.foldl_append, List.foldl_append,
      (hstate _).1, (hstate' _).1]
  · rw [stateAfter, stateAfter, hshort, hlong, List.foldl_append, List.foldl_append,
      (hstate _).2, (hstate' _).2]

end MarkdownPrep.Chart
