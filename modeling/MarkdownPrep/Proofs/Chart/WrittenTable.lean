import MarkdownPrep.Chart.Dialect
import MarkdownPrep.Proofs.Json.Members
import MarkdownPrep.Proofs.Text.Lines

/-!
# Tables as they are written

A table is written with its header, a separator and one line for each row, every cell between bars,
and setting lines may stand above it (`tableText`). Reading the text gives back what was written
(`read_tableText`): the names of the columns, one record for each row that is not empty, and on them
the settings, one after the other. White space around the settings and at the end of the text, where
trimming may take it off, makes no difference.
-/

namespace MarkdownPrep.Chart

/-- A line of a table with these cells. -/
def writeRow (cells : List Text) : Text := '|' :: cells.flatMap fun c => ' ' :: c ++ [' ', '|']

/-- The names of the columns below some header cells, which may be blank. -/
def columnNames (headers : List Text) : List Text := headers.filter (!·.isEmpty)

/-- The text of a chart block with a table below some setting lines. -/
def tableText (settings names : List Text) (separator : Text) (rows : List (List Text)) : Text :=
  Text.join ['\n'] (settings ++ writeRow names :: separator :: rows.map writeRow)

/-- The record of a row of cells under column names: a member for each cell that is not empty. No
record comes of a row of empty cells. -/
def recordOf? (names cells : List Text) : Option Record :=
  if cells.all List.isEmpty then none
  else some <| (names.zip cells).filterMap fun (name, cell) =>
    if cell.isEmpty then none else some (name, readCell cell)

/-- The description of a table without settings. -/
def tableBase (names : List Text) (rows : List (List Text)) : Description where
  data := rows.filterMap (recordOf? names)
  colors := some standardColors
  xKey := names.head?
  dataKeys := some names.tail

/-- A text that can stand in a cell. -/
structure IsCell (c : Text) : Prop where
  trimmed : Text.trim c = c
  bar : '|' ∉ c
  newline : '\n' ∉ c

instance (c : Text) : Decidable (IsCell c) :=
  decidable_of_iff (Text.trim c = c ∧ '|' ∉ c ∧ '\n' ∉ c)
    ⟨fun ⟨ht, hb, hn⟩ => ⟨ht, hb, hn⟩, fun h => ⟨h.trimmed, h.bar, h.newline⟩⟩

/-! ## Rows -/

theorem trim_padded {c : Text} (h : Text.trim c = c) : Text.trim (' ' :: c ++ [' ']) = c := by
  have hspace : ∀ d ∈ [' '], isBlank d := List.forall_mem_singleton.2 rfl
  rw [Text.trim_append_blank _ hspace]
  exact (Text.trim_blank_append hspace c).trans h

theorem trim_splitOn_writeRow {cells : List Text} (h : ∀ c ∈ cells, IsCell c) :
    (Text.splitOn '|' (writeRow cells)).map Text.trim = [] :: (cells ++ [[]]) := by
  have hcells : (Text.splitOn '|' (cells.flatMap fun c => ' ' :: c ++ [' ', '|'])).map Text.trim =
      cells ++ [[]] := by
    induction cells with
    | nil => rfl
    | cons c cells ih =>
      rw [List.forall_mem_cons] at h
      have hbar : '|' ∉ ' ' :: c ++ [' '] := by simpa using h.1.bar
      have hsplit := Text.splitOn_append_cons hbar (cells.flatMap fun c => ' ' :: c ++ [' ', '|'])
      rw [List.append_assoc] at hsplit
      rw [List.flatMap_cons, List.append_assoc]
      refine (congrArg (List.map Text.trim) hsplit).trans ?_
      rw [List.map_cons, trim_padded h.1.trimmed, ih h.2]
      rfl
  rw [writeRow, Text.splitOn, if_pos rfl, List.map_cons, hcells]
  rfl

/-- The header gives the names of the columns: what its cells hold that are not blank. -/
theorem headerNames_writeRow {headers : List Text} (h : ∀ n ∈ headers, IsCell n) :
    headerNames (writeRow headers) = columnNames headers := by
  rw [headerNames, trim_splitOn_writeRow h]
  simp [columnNames]

theorem cellsOf_writeRow {cells : List Text} (h : ∀ c ∈ cells, IsCell c) :
    cellsOf (writeRow cells) = cells := by
  rw [cellsOf, trim_splitOn_writeRow h, ← List.cons_append, List.getLast?_concat,
    List.dropLast_concat]
  rfl

/-- Filled cells become members, in the order of the columns. -/
theorem foldl_insertLast_cells {columns : List (Text × Text)} {record : Record}
    (h : (record.map Prod.fst ++ columns.map Prod.fst).Nodup) :
    columns.foldl (fun record (name, cell) =>
      if cell.isEmpty then record else Json.insertLast name (readCell cell) record) record =
    record ++ columns.filterMap fun (name, cell) =>
      if cell.isEmpty then none else some (name, readCell cell) := by
  induction columns generalizing record with
  | nil => simp
  | cons column columns ih =>
    obtain ⟨name, cell⟩ := column
    rw [List.map_cons] at h
    rw [List.foldl_cons, List.filterMap_cons]
    by_cases hcell : cell.isEmpty
    · have hsub := List.Nodup.sublist (List.Sublist.append_left (List.sublist_cons_self _ _) _) h
      simp only [hcell, if_true]
      exact ih hsub
    · have hnew : name ∉ record.map Prod.fst :=
        fun hm => (List.nodup_append.1 h).2.2 _ hm _ List.mem_cons_self rfl
      simp only [hcell, Bool.false_eq_true, if_false]
      rw [Json.insertLast_of_not_mem hnew, ih, List.append_assoc]
      · rfl
      · simpa using h

/-- **A row gives its record.** -/
theorem rowRecord?_writeRow {names cells : List Text} (hnames : names.Nodup)
    (h : ∀ c ∈ cells, IsCell c) : rowRecord? names (writeRow cells) = recordOf? names cells := by
  have hnodup : ((names.zip cells).map Prod.fst).Nodup := by
    rw [List.zip_eq_zip_take_min, List.map_fst_zip (by simp)]
    exact hnames.sublist (List.take_sublist _ _)
  rw [rowRecord?, cellsOf_writeRow h, recordOf?]
  split
  · rfl
  · rw [foldl_insertLast_cells (by simpa using hnodup), List.nil_append]

/-- Every line of a table ends in a bar. -/
theorem exists_writeRow_eq (cells : List Text) : ∃ s, writeRow cells = s ++ ['|'] := by
  rcases List.eq_nil_or_concat cells with rfl | ⟨front, c, rfl⟩
  · exact ⟨[], rfl⟩
  · exact ⟨'|' :: (front.flatMap fun c => ' ' :: c ++ [' ', '|']) ++ ' ' :: c ++ [' '],
      by simp [writeRow, List.flatMap_append]⟩

theorem hasBar_writeRow (cells : List Text) : hasBar (writeRow cells) := by
  simp [hasBar, writeRow]

theorem newline_not_mem_writeRow {cells : List Text} (h : ∀ c ∈ cells, IsCell c) :
    '\n' ∉ writeRow cells := by
  intro hm
  rw [writeRow, List.mem_cons, List.mem_flatMap] at hm
  obtain hm | ⟨c, hc, hm⟩ := hm
  · exact absurd hm (by decide)
  · have := (h c hc).newline
    simp_all

theorem dropOneEnd_writeRow (cells : List Text) :
    Text.dropOneEnd '\r' (writeRow cells) = writeRow cells := by
  obtain ⟨s, hs⟩ := exists_writeRow_eq cells
  rw [hs, Text.dropOneEnd, List.getLast?_concat, if_neg (by decide)]

theorem trimEnd_writeRow_append (cells : List Text) {tail : Text} (h : ∀ c ∈ tail, isBlank c) :
    Text.trimEnd (writeRow cells ++ tail) = writeRow cells := by
  obtain ⟨s, hs⟩ := exists_writeRow_eq cells
  have hbar : Text.Visible ['|'] := by decide
  rw [Text.trimEnd_append_of_blank _ h, hs, Text.trimEnd_append_of_visible s hbar]
  rfl

theorem visible_of_hasBar {l : Text} (h : hasBar l) : Text.Visible l :=
  ⟨'|', List.contains_iff_mem.1 h, by decide⟩

/-! ## The lines of the table -/

variable {tail : Text}

theorem lines_rows {rows : List (List Text)} (h : ∀ cells ∈ rows, ∀ c ∈ cells, IsCell c)
    (htail : ∀ c ∈ tail, isBlank c) :
    Text.lines (Text.trimEnd (Text.join ['\n'] (rows.map writeRow) ++ tail)) =
      rows.map writeRow := by
  induction rows with
  | nil =>
    rw [List.map_nil]
    exact congrArg Text.lines (Text.trimEnd_eq_nil htail)
  | cons row rows ih =>
    rw [List.forall_mem_cons] at h
    have hnewline := newline_not_mem_writeRow h.1
    cases rows with
    | nil =>
      have hjoin : Text.join ['\n'] [writeRow row] = writeRow row := by simp [Text.join]
      rw [List.map_singleton, hjoin, trimEnd_writeRow_append row htail]
      exact Text.lines_eq_singleton hnewline (List.cons_ne_nil _ _)
    | cons next rows =>
      have hnext := visible_of_hasBar (hasBar_writeRow next)
      rw [List.map_cons, List.map_cons, Text.lines_trimEnd_join_cons_cons hnewline hnext,
        dropOneEnd_writeRow, ← List.map_cons, ih h.2]

/-- A table is read as its header, some separator and its rows. -/
theorem exists_lines_table {names : List Text} {separator : Text} {rows : List (List Text)}
    (hnames : ∀ n ∈ names, IsCell n) (hbar : hasBar separator) (hnewline : '\n' ∉ separator)
    (hrows : ∀ cells ∈ rows, ∀ c ∈ cells, IsCell c) (htail : ∀ c ∈ tail, isBlank c) :
    ∃ separator', hasBar separator' ∧
      Text.lines (Text.trimEnd
        (Text.join ['\n'] (writeRow names :: separator :: rows.map writeRow) ++ tail)) =
        writeRow names :: separator' :: rows.map writeRow := by
  rw [Text.lines_trimEnd_join_cons_cons (newline_not_mem_writeRow hnames)
    (visible_of_hasBar hbar), dropOneEnd_writeRow]
  cases rows with
  | nil =>
    have hsame := Text.trimEnd_append_of_blank separator htail
    obtain ⟨s, hs, hblank⟩ := Text.exists_trimEnd_append separator
    have hkept : '|' ∈ Text.trimEnd separator := by
      have hm : '|' ∈ separator := List.contains_iff_mem.1 hbar
      rw [hs, List.mem_append] at hm
      exact hm.resolve_right fun hm => absurd (hblank _ hm) (by decide)
    have hline : '\n' ∉ Text.trimEnd separator :=
      fun hm => hnewline ((Text.trimEnd_prefix separator).subset hm)
    have hjoin : Text.join ['\n'] [separator] = separator := by simp [Text.join]
    refine ⟨Text.trimEnd separator, List.contains_iff_mem.2 hkept, ?_⟩
    rw [List.map_nil, hjoin, hsame, Text.lines_eq_singleton hline (List.ne_nil_of_mem hkept)]
  | cons row rows =>
    have hrow := visible_of_hasBar (hasBar_writeRow row)
    refine ⟨Text.dropOneEnd '\r' separator, ?_, ?_⟩
    · exact List.contains_iff_mem.2 (Text.mem_dropOneEnd (by decide) (List.contains_iff_mem.1 hbar))
    · rw [List.map_cons, Text.lines_trimEnd_join_cons_cons hnewline hrow, ← List.map_cons,
        lines_rows hrows htail]

/-! ## The lines above the table -/

theorem colon_not_mem_of_blank {t : Text} (ht : ∀ c ∈ t, isBlank c) : ':' ∉ t :=
  fun hm => absurd (ht _ hm) (by decide)

namespace Description

variable {t : Text} (ht : ∀ c ∈ t, isBlank c) (c : Description) (l : Text)
include ht

theorem setLine_blank_append : c.setLine (t ++ l) = c.setLine l := by
  rw [setLine, setLine, Text.splitOnce?_append_left (colon_not_mem_of_blank ht)]
  cases Text.splitOnce? ':' l with
  | none => rfl
  | some line =>
    rw [Option.map_some]
    simp only [set, Setting.read?, Setting.keyOf, Text.trim_blank_append ht]

theorem setLine_append_blank : c.setLine (l ++ t) = c.setLine l := by
  rw [setLine, setLine, Text.splitOnce?_append_right (colon_not_mem_of_blank ht)]
  cases Text.splitOnce? ':' l with
  | none => rfl
  | some line =>
    rw [Option.map_some]
    simp only [set, Setting.read?, Text.trim_append_blank _ ht]

theorem setLine_of_blank : c.setLine t = c := setLine_append_blank ht c []

omit ht in
/-- The end of a line does not matter. -/
theorem setLine_dropOneEnd : c.setLine (Text.dropOneEnd '\r' l) = c.setLine l := by
  have hblank : ∀ d ∈ ['\r'], isBlank d := List.forall_mem_singleton.2 rfl
  rw [Text.dropOneEnd]
  split
  · next hlast =>
    obtain ⟨s, rfl⟩ := List.getLast?_eq_some_iff.1 hlast
    rw [List.dropLast_concat, setLine_append_blank hblank]
  · rfl

end Description

/-- Trimming drops lines of white space at the front, and the white space before the first other
line. What the lines set stays the same. -/
theorem exists_trimStart_settings {settings : List Text} (h : ∀ l ∈ settings, '|' ∉ l ∧ '\n' ∉ l)
    (table : Text) :
    ∃ settings' : List Text, (∀ l ∈ settings', '|' ∉ l ∧ '\n' ∉ l) ∧
      Text.trimStart (settings.flatMap (· ++ ['\n']) ++ '|' :: table) =
        settings'.flatMap (· ++ ['\n']) ++ '|' :: table ∧
      ∀ c, settings'.foldl Description.setLine c = settings.foldl Description.setLine c := by
  induction settings with
  | nil => exact ⟨[], by simp, rfl, fun _ => rfl⟩
  | cons l settings ih =>
    rw [List.forall_mem_cons] at h
    by_cases hl : Text.Visible l
    · refine ⟨Text.trimStart l :: settings, ?_, ?_, fun c => ?_⟩
      · have hsub := (List.dropWhile_sublist (l := l) isBlank).subset
        exact List.forall_mem_cons.2 ⟨⟨fun hm => h.1.1 (hsub hm), fun hm => h.1.2 (hsub hm)⟩, h.2⟩
      · rw [List.flatMap_cons, List.append_assoc, List.append_assoc,
          Text.trimStart_append_of_visible hl, List.flatMap_cons, List.append_assoc,
          List.append_assoc]
      · have hblank : ∀ d ∈ l.takeWhile isBlank, isBlank d := fun d hd => by
          have := List.all_takeWhile (p := isBlank) (l := l)
          exact List.all_eq_true.1 this d hd
        have hsame := Description.setLine_blank_append hblank c (Text.trimStart l)
        rw [Text.trimStart, List.takeWhile_append_dropWhile] at hsame
        rw [List.foldl_cons, List.foldl_cons, hsame]
        rfl
    · -- the line goes with its end, and it sets nothing
      obtain ⟨settings', hfree, htrim, hset⟩ := ih h.2
      have hblank := Text.not_visible_iff.1 hl
      have hline : ∀ d ∈ l ++ ['\n'], isBlank d := by
        rw [List.forall_mem_append]
        exact ⟨hblank, List.forall_mem_singleton.2 rfl⟩
      refine ⟨settings', hfree, ?_, fun c => ?_⟩
      · rw [List.flatMap_cons, List.append_assoc, Text.trimStart_blank_append hline, htrim]
      · rw [List.foldl_cons, Description.setLine_of_blank hblank, hset]

/-- The lines of a written table: lines without a bar that set what the settings set, and the
table. -/
theorem exists_lines_tableText {settings names : List Text} {separator : Text}
    {rows : List (List Text)} (hsettings : ∀ l ∈ settings, '|' ∉ l ∧ '\n' ∉ l)
    (hnames : ∀ n ∈ names, IsCell n) (hbar : hasBar separator) (hnewline : '\n' ∉ separator)
    (hrows : ∀ cells ∈ rows, ∀ c ∈ cells, IsCell c) (htail : ∀ c ∈ tail, isBlank c) :
    ∃ above separator', (∀ l ∈ above, hasBar l = false) ∧ hasBar separator' ∧
      (∀ c, above.foldl Description.setLine c = settings.foldl Description.setLine c) ∧
      Text.lines (Text.trim (tableText settings names separator rows ++ tail)) =
        above ++ writeRow names :: separator' :: rows.map writeRow := by
  have hhead : ∃ table,
      Text.join ['\n'] (writeRow names :: separator :: rows.map writeRow) ++ tail =
        '|' :: table := by
    rw [Text.join_cons_cons, writeRow]
    exact ⟨_, rfl⟩
  -- Trimming takes something off at the start before the table only and at the end in it only.
  obtain ⟨table, htable⟩ := hhead
  obtain ⟨settings', hfree, htrim, hset⟩ := exists_trimStart_settings hsettings table
  obtain ⟨separator', hbar', hlines⟩ := exists_lines_table hnames hbar hnewline hrows htail
  have hvisible : Text.Visible ('|' :: table) := ⟨'|', List.mem_cons_self, by decide⟩
  refine ⟨settings'.map (Text.dropOneEnd '\r'), separator', ?_, hbar', fun c => ?_, ?_⟩
  · rw [List.forall_mem_map]
    intro l hl
    have hsub : Text.dropOneEnd '\r' l ⊆ l := by
      rw [Text.dropOneEnd]
      split
      · exact List.dropLast_subset l
      · exact List.Subset.refl l
    exact Bool.eq_false_iff.2 fun hm => (hfree l hl).1 (hsub (List.contains_iff_mem.1 hm))
  · rw [List.foldl_map, ← hset c]
    simp only [Description.setLine_dropOneEnd]
  · rw [tableText, Text.join_append_cons, List.append_assoc, htable, Text.trim, htrim,
      Text.trimEnd_append_of_visible _ hvisible, Text.lines_flatMap fun l hl => (hfree l hl).2,
      ← htable, hlines]

theorem Dialect.ofBlock_of_hasBar {tag : Tag} (htag : tag ≠ .chartJson) {text l : Text}
    (hl : l ∈ Text.lines (Text.trim text)) (hbar : hasBar l) :
    Dialect.ofBlock text tag.name = .ok .table := by
  have hany : (Text.lines (Text.trim text)).any hasBar := List.any_eq_true.2 ⟨l, hl, hbar⟩
  cases tag with
  | chartJson => exact absurd rfl htag
  | chart => exact if_pos hany
  | chartTable => exact if_pos hany

theorem takeWhile_append_cons {above : List Text} (h : ∀ l ∈ above, hasBar l = false)
    {header : Text} (hbar : hasBar header) (below : List Text) :
    (above ++ header :: below).takeWhile (!hasBar ·) = above := by
  rw [List.takeWhile_append_of_pos fun l hl => by simp [h l hl],
    List.takeWhile_cons_of_neg (by simp [hbar]), List.append_nil]

/-- A written table is read with the columns that have a name, and the lines above it are carried
out one after the other. -/
theorem read_tableText_of_headers {tag : Tag} (htag : tag ≠ .chartJson)
    {settings headers : List Text} {separator : Text} {rows : List (List Text)} {tail : Text}
    (hne : columnNames headers ≠ []) (hnodup : (columnNames headers).Nodup)
    (hheaders : ∀ n ∈ headers, IsCell n) (hrows : ∀ cells ∈ rows, ∀ c ∈ cells, IsCell c)
    (hsettings : ∀ l ∈ settings, '|' ∉ l ∧ '\n' ∉ l)
    (hseparator : '|' ∈ separator ∧ '\n' ∉ separator) (htail : ∀ c ∈ tail, isBlank c) :
    Description.read (tableText settings headers separator rows ++ tail) tag.name =
      .ok (settings.foldl Description.setLine (tableBase (columnNames headers) rows)).withColors := by
  obtain ⟨above, separator', habove, hbar, hset, hlines⟩ := exists_lines_tableText hsettings hheaders
    (List.contains_iff_mem.2 hseparator.1) hseparator.2 hrows htail
  have hheader := hasBar_writeRow headers
  have hdialect : Dialect.ofBlock (tableText settings headers separator rows ++ tail) tag.name =
      .ok .table :=
    Dialect.ofBlock_of_hasBar htag (hlines ▸ List.mem_append_right _ List.mem_cons_self) hheader
  have htable : (above ++ writeRow headers :: separator' :: rows.map writeRow).filter hasBar =
      writeRow headers :: separator' :: rows.map writeRow := by
    have hnone : above.filter hasBar = [] :=
      List.filter_eq_nil_iff.2 fun l hl => by simp [habove l hl]
    have hall : (rows.map writeRow).filter hasBar = rows.map writeRow :=
      List.filter_eq_self.2 <| List.forall_mem_map.2 fun cells _ => hasBar_writeRow cells
    rw [List.filter_append, hnone, List.filter_cons_of_pos hheader, List.filter_cons_of_pos hbar,
      hall, List.nil_append]
  have hrecords : (rows.map writeRow).filterMap (rowRecord? (columnNames headers)) =
      rows.filterMap (recordOf? (columnNames headers)) := by
    rw [List.filterMap_map]
    exact List.filterMap_congr fun cells hc => rowRecord?_writeRow hnodup (hrows cells hc)
  have htext : readTable (tableText settings headers separator rows ++ tail) =
      .ok (settings.foldl Description.setLine (tableBase (columnNames headers) rows)).withColors := by
    rw [readTable]
    simp only [hlines, htable, takeWhile_append_cons habove hheader, headerNames_writeRow hheaders]
    obtain ⟨x, keys, hnames⟩ := List.exists_cons_of_ne_nil hne
    rw [hnames] at hrecords ⊢
    dsimp only
    rw [List.drop_one, List.tail_cons, hrecords, hset]
    rfl
  rw [Description.read, hdialect]
  exact htext

/-- **A written table is read back.** Its columns and rows are found, and the lines above it are
carried out one after the other. -/
theorem read_tableText {tag : Tag} (htag : tag ≠ .chartJson) {settings names : List Text}
    {separator : Text} {rows : List (List Text)} {tail : Text} (hne : names ≠ [])
    (hnodup : names.Nodup) (hnames : ∀ n ∈ names, IsCell n ∧ n ≠ [])
    (hrows : ∀ cells ∈ rows, ∀ c ∈ cells, IsCell c) (hsettings : ∀ l ∈ settings, '|' ∉ l ∧ '\n' ∉ l)
    (hseparator : '|' ∈ separator ∧ '\n' ∉ separator) (htail : ∀ c ∈ tail, isBlank c) :
    Description.read (tableText settings names separator rows ++ tail) tag.name =
      .ok (settings.foldl Description.setLine (tableBase names rows)).withColors := by
  have hkeep : columnNames names = names :=
    List.filter_eq_self.2 fun n hn => by simpa using (hnames n hn).2
  have hread := read_tableText_of_headers htag (hkeep.symm ▸ hne) (hkeep.symm ▸ hnodup)
    (fun n hn => (hnames n hn).1) hrows hsettings hseparator htail
  rwa [hkeep] at hread

theorem read_tableText_of_settings :
    Description.read
      (tableText [" ".toList, "xKey: b\r".toList, "colors: []".toList] ["a".toList, "b".toList]
        "|---|---|".toList
        [["".toList, "7".toList], ["".toList, "".toList], ["---".toList, "x y".toList]] ++
          ['\n'])
      "chart-table".toList =
      .ok ([" ".toList, "xKey: b\r".toList, "colors: []".toList].foldl Description.setLine
        { data := [[("b".toList, .number (.int 7))], [("a".toList, .string "---".toList),
            ("b".toList, .string "x y".toList)]]
          colors := some standardColors
          xKey := some "a".toList
          dataKeys := some ["b".toList] }).withColors :=
  @read_tableText .chartTable (by decide) _ _ _ _ _ (by decide) (by decide) (by decide) (by decide)
    (by decide) (by decide) (List.forall_mem_singleton.2 rfl)

end MarkdownPrep.Chart
