import MarkdownPrep.Proofs.Chart.Beginnings
import MarkdownPrep.Streaming.Watcher

/-!
# The first sight of a chart that is arriving

A new watcher reports an error of a beginning of a chart block only if the beginning does not look
unfinished, and then only for two reasons (`examine_beginning`). Either there is no table in it yet,
and a line with the data or the kind of the chart is missing. Or it has a table with rows that are
all empty and a header with at most one filled cell.
-/

namespace MarkdownPrep.Streaming

open Chart

/-- The lines of a table with empty rows and at most one filled cell in its header. -/
structure Narrow (rows : List Text) : Prop where
  empty : ∀ row ∈ rows.drop 2, filledCells row = 0
  header : ∀ header ∈ rows.find? (!isSeparator ·), filledCells header ≤ 1

/-! ## What a new watcher tells -/

theorem examine_eq_ready {w : Watcher} {text tag : Text} {now : Nat} {c : Description}
    (h : (w.examine text tag now).1 = .ready c) : readChart text tag = .ok c := by
  rw [Watcher.examine] at h
  cases hread : readChart text tag with
  | ok d =>
    rw [hread] at h
    cases h
    rfl
  | error e =>
    rw [hread] at h
    cases hverdict : (w.watch text now).1 <;> simp [hverdict] at h

theorem exists_examine_eq_ready {w : Watcher} {text tag : Text} {now : Nat}
    (h : (readChart text tag).map (fun _ => ()) = .ok ()) :
    ∃ c, (w.examine text tag now).1 = .ready c := by
  cases hread : readChart text tag with
  | ok c => exact ⟨c, by simp [Watcher.examine, hread]⟩
  | error e => rw [hread] at h; cases h

theorem eq_error_of_map_eq_error {α β ε : Type} {f : α → β} {e : ε} {r : Except ε α}
    (h : r.map f = .error e) : r = .error e := by
  cases r with
  | error e' => cases h; rfl
  | ok a => cases h

theorem readChart_of_read {text tag : Text} {c : Description}
    (h : Description.read text tag = .ok c) : readChart text tag = c.check.map fun _ => c := by
  rw [readChart, h]
  rfl

theorem readChart_of_read_error {text tag : Text} {e : Error}
    (h : Description.read text tag = .error e) : readChart text tag = .error e := by
  rw [readChart, h]
  rfl

theorem readChart_eq_ok {text tag : Text} {c : Description} (h : readChart text tag = .ok c) :
    Description.read text tag = .ok c ∧ c.check = .ok () := by
  cases hread : Description.read text tag with
  | error e =>
    rw [readChart_of_read_error hread] at h
    cases h
  | ok d =>
    rw [readChart_of_read hread] at h
    cases hcheck : d.check with
    | error e =>
      rw [hcheck] at h
      cases h
    | ok _ =>
      rw [hcheck] at h
      cases h
      exact ⟨rfl, hcheck⟩

theorem readChart_eq_error_iff {text tag : Text} {c : Description} {e : Error}
    (h : Description.read text tag = .ok c) :
    readChart text tag = .error e ↔ c.check = .error e := by
  rw [readChart_of_read h]
  cases c.check with
  | error e' => simp [Except.map]
  | ok _ => simp [Except.map]

/-- A new watcher takes a text as final if it does not look unfinished. -/
theorem examine_new_eq_failed_iff {text tag : Text} {now : Nat} {e : Error} :
    (({} : Watcher).examine text tag now).1 = .failed e ↔
      isUnfinished text = false ∧ readChart text tag = .error e := by
  have hverdict : (({} : Watcher).watch text now).1 =
      if isUnfinished text = false then .final else .waiting := by
    cases h : isUnfinished text <;>
      simp [Watcher.watch, Sighting.next, Sighting.verdict, h]
  rw [Watcher.examine]
  cases readChart text tag with
  | ok c => simp
  | error e' =>
    by_cases h : isUnfinished text = false
    · simp [hverdict, h]
    · simp [hverdict, h]

/-! ## Tables -/

theorem filledCells_eq_zero_iff {line : Text} :
    filledCells line = 0 ↔ (cellsOf line).all List.isEmpty := by
  simp [filledCells]

theorem isSeparator_of_filledCells_eq_zero {line : Text} (h : filledCells line = 0) :
    isSeparator line = false := by
  rw [filledCells_eq_zero_iff, List.all_eq_true] at h
  have hdash : (cellsOf line).any (·.contains '-') = false := by
    rw [List.any_eq_false]
    intro cell hcell hdash
    rw [List.isEmpty_iff.1 (h cell hcell)] at hdash
    cases hdash
  rw [isSeparator, hdash]
  rfl

/-- A table that does not look unfinished has a separator and at least two other lines. -/
theorem exists_of_not_tableUnfinished {rows : List Text} (hne : rows ≠ [])
    (h : tableUnfinished rows = false) : (∃ row ∈ rows, isSeparator row) ∧
      ∃ header row more, rows.filter (!isSeparator ·) = header :: row :: more ∧
        filledCells header < filledCells ((row :: more).getLast (List.cons_ne_nil _ _)) + 2 := by
  rw [tableUnfinished] at h
  split at h
  · next hany =>
    refine ⟨List.any_eq_true.1 hany, ?_⟩
    split at h
    · next header row more hrows =>
      exact ⟨header, row, more, hrows, by simpa using h⟩
    · cases h
  · exact absurd (by simpa using h) hne

theorem two_le_length_of_not_tableUnfinished {rows : List Text} (hne : rows ≠ [])
    (h : tableUnfinished rows = false) : 2 ≤ rows.length := by
  obtain ⟨-, header, row, more, hrows, -⟩ := exists_of_not_tableUnfinished hne h
  have := List.length_filter_le (!isSeparator ·) rows
  rw [hrows] at this
  simp at this
  omega

/-- An empty row at the end is noticed if the header has two filled cells. -/
theorem narrow_of_not_tableUnfinished {rows : List Text} (hne : rows ≠ [])
    (h : tableUnfinished rows = false) (hempty : ∀ row ∈ rows.drop 2, filledCells row = 0) :
    Narrow rows := by
  obtain ⟨⟨separator, hmem, hseparator⟩, header, row, more, hrows, hfilled⟩ :=
    exists_of_not_tableUnfinished hne h
  -- empty rows are no separators, so there is one among the first two lines
  have hkept : (rows.drop 2).filter (!isSeparator ·) = rows.drop 2 := by
    rw [List.filter_eq_self]
    exact fun row hrow => by simp [isSeparator_of_filledCells_eq_zero (hempty row hrow)]
  have hsplit : (rows.take 2).filter (!isSeparator ·) ++ rows.drop 2 = header :: row :: more := by
    rw [← hrows, ← hkept, ← List.filter_append, List.take_append_drop]
  have htop : ((rows.take 2).filter (!isSeparator ·)).length < 2 := by
    have hout : separator ∉ rows.drop 2 := fun hrow => by
      simp [isSeparator_of_filledCells_eq_zero (hempty _ hrow)] at hseparator
    rw [← List.take_append_drop 2 rows, List.mem_append] at hmem
    have hlt := (List.length_filter_lt_length_iff_exists (p := (!isSeparator ·))).2
      ⟨separator, hmem.resolve_right hout, by simpa using hseparator⟩
    exact Nat.lt_of_lt_of_le hlt (List.length_take_le 2 rows)
  have hlast : filledCells ((row :: more).getLast (List.cons_ne_nil _ _)) = 0 := by
    refine hempty _ ?_
    cases htake : (rows.take 2).filter (!isSeparator ·) with
    | nil =>
      rw [htake, List.nil_append] at hsplit
      rw [hsplit]
      exact List.mem_cons_of_mem _ (List.getLast_mem _)
    | cons top others =>
      rw [htake, List.length_cons] at htop
      obtain rfl := List.length_eq_zero_iff.1 (Nat.lt_one_iff.1 (Nat.lt_of_succ_lt_succ htop))
      rw [htake, List.singleton_append, List.cons_eq_cons] at hsplit
      rw [hsplit.2]
      exact List.getLast_mem _
  refine ⟨hempty, fun header' hheader' => ?_⟩
  rw [← List.head?_filter, hrows] at hheader'
  obtain rfl : header = header' := by simpa using hheader'
  omega

theorem tableUnfinished_tableLines {s : Text} (h : isUnfinished s = false) :
    tableUnfinished (tableLines s) = false := by
  rw [isUnfinished, ← tableLines_eq] at h
  simp only [Bool.or_eq_false_iff] at h
  exact h.1.2

/-! ## Beginnings -/

variable {t tag s : Text} {w : Watcher} {now now' : Nat} {c : Description}

/-- A beginning with a table that does not look unfinished is read, and has the kind of the chart.
It has data unless the table is narrow. -/
theorem read_of_table_beginning (hs : s <+: t) (hread : readTable t = .ok c)
    (hcheck : c.check = .ok ()) (hbar : '|' ∈ s) (hfinished : isUnfinished s = false) :
    ∃ d, readTable s = .ok d ∧ ∀ e, d.check = .error e → e = .noData ∧ Narrow (tableLines s) := by
  have hne := tableLines_ne_nil hbar
  have htable := tableUnfinished_tableLines hfinished
  obtain ⟨d, hd, hkind, hempty⟩ :=
    rows_of_beginning hs hread hcheck (two_le_length_of_not_tableUnfinished hne htable)
  refine ⟨d, hd, fun e he => ?_⟩
  have hkind' : d.kind.isNone = false := by
    rw [Description.check] at hcheck
    rw [hkind]
    split at hcheck
    · cases hcheck
    · split at hcheck
      · cases hcheck
      · next hnone => exact Bool.eq_false_iff.2 hnone
  rw [Description.check, hkind'] at he
  split at he
  · next hdata =>
    cases he
    refine ⟨rfl, narrow_of_not_tableUnfinished hne htable fun row hrow => ?_⟩
    exact filledCells_eq_zero_iff.2 (hempty (List.isEmpty_iff.1 hdata) row hrow)
  · cases he

theorem exists_missing_of_check_ne {s t : Text} (hs : s <+: t)
    (h : (readLines s).check ≠ (readLines t).check) :
    ∃ line, Missing s t line ∧ ∃ topic ∈ lineTopic? line, Decisive topic := by
  apply Classical.byContradiction
  intro hnone
  exact h (check_of_beginning hs fun line hline topic htopic hdecisive =>
    hnone ⟨line, hline, topic, htopic, hdecisive⟩)

/-- **When a new watcher reports an error of a chart that is still arriving.** The block as far as
it has come does not look unfinished, and it is a chart without data or without a kind. If it has a
table, then that is narrow and it is the data that are not there; if the whole block has none, then
a line about the data or the kind is missing. -/
theorem examine_beginning
    (htag : Tag.ofText? tag = some .chart ∨ Tag.ofText? tag = some .chartTable)
    (hready : (w.examine t tag now).1 = .ready c) (hs : s <+: t) (e : Error) :
    (({} : Watcher).examine s tag now').1 = .failed e ↔
      isUnfinished s = false ∧ (∃ d, Description.read s tag = .ok d ∧ d.check = .error e) ∧
        ('|' ∈ s → e = .noData ∧ Narrow (tableLines s)) ∧
        ('|' ∉ t → ∃ line, Missing s t line ∧ ∃ topic ∈ lineTopic? line, Decisive topic) := by
  obtain ⟨hread, hcheck⟩ := readChart_eq_ok (examine_eq_ready hready)
  rw [examine_new_eq_failed_iff]
  refine and_congr_right fun hfinished => ?_
  by_cases hbar : '|' ∈ s
  · have hbar' : '|' ∈ t := hs.subset hbar
    rw [read_of_mem_bar hbar' htag] at hread
    obtain ⟨d, hd, hnarrow⟩ := read_of_table_beginning hs hread hcheck hbar hfinished
    have hd' := (read_of_mem_bar hbar htag).trans hd
    rw [readChart_eq_error_iff hd']
    constructor
    · exact fun he => ⟨⟨d, hd', he⟩, fun _ => hnarrow e he, fun hnot => absurd hbar' hnot⟩
    · rintro ⟨⟨d', hread', he⟩, -⟩
      rw [hd'] at hread'
      cases hread'
      exact he
  · have hd := read_of_not_mem_bar hbar htag
    rw [readChart_eq_error_iff hd]
    constructor
    · refine fun he => ⟨⟨_, hd, he⟩, fun hmem => absurd hmem hbar, fun hnot => ?_⟩
      rw [read_of_not_mem_bar hnot htag] at hread
      cases hread
      exact exists_missing_of_check_ne hs (by rw [he, hcheck]; nofun)
    · rintro ⟨⟨d', hread', he⟩, -⟩
      rw [hd] at hread'
      cases hread'
      exact he

/-- A block whose table has one column. -/
def columnBlock : Text := "type: bar\n| a |\n|---|\n| 1 |".toList

theorem examine_beginning_of_column :
    Tag.ofText? "chart-table".toList = some .chartTable ∧
      (∃ c, (({} : Watcher).examine columnBlock "chart-table".toList 0).1 = .ready c) ∧
      columnBlock.take 23 <+: columnBlock ∧
      (({} : Watcher).examine (columnBlock.take 23) "chart-table".toList 7).1 = .failed .noData ∧
      Narrow (tableLines (columnBlock.take 23)) := by
  have htag : Tag.ofText? "chart-table".toList = some .chartTable := by decide +kernel
  have hprefix : columnBlock.take 23 <+: columnBlock := by decide +kernel
  have hbar : '|' ∈ columnBlock.take 23 := by decide +kernel
  obtain ⟨c, hready⟩ : ∃ c,
      (({} : Watcher).examine columnBlock "chart-table".toList 0).1 = .ready c :=
    exists_examine_eq_ready (by decide +kernel)
  have herror : readChart (columnBlock.take 23) "chart-table".toList = .error .noData :=
    eq_error_of_map_eq_error (f := fun _ => ()) (by decide +kernel)
  have hfailed : (({} : Watcher).examine (columnBlock.take 23) "chart-table".toList 7).1 =
      .failed .noData := examine_new_eq_failed_iff.2 ⟨by decide +kernel, herror⟩
  have hnarrow := ((examine_beginning (.inr htag) hready hprefix .noData).1 hfailed).2.2.1 hbar
  exact ⟨htag, ⟨c, hready⟩, hprefix, hfailed, hnarrow.2⟩

/-- A block of settings and data. -/
def salesBlock : Text := "type: bar\ntitle: Sales\ndata: [1]".toList

/-- An error may be reported of a chart that is still arriving: of this block, before its data. -/
theorem not_examine_beginning_ne_failed : ¬ ∀ (t tag s : Text) (now now' : Nat) (c : Description),
    Tag.ofText? tag = some .chart ∨ Tag.ofText? tag = some .chartTable →
    (({} : Watcher).examine t tag now).1 = .ready c → s <+: t → s ≠ [] →
    ∀ e, (({} : Watcher).examine s tag now').1 ≠ .failed e := by
  intro h
  obtain ⟨c, hready⟩ : ∃ c, (({} : Watcher).examine salesBlock "chart".toList 0).1 = .ready c :=
    exists_examine_eq_ready (by decide +kernel)
  have herror : readChart (salesBlock.take 22) "chart".toList = .error .noData :=
    eq_error_of_map_eq_error (f := fun _ => ()) (by decide +kernel)
  have hfailed : (({} : Watcher).examine (salesBlock.take 22) "chart".toList 0).1 =
      .failed .noData := examine_new_eq_failed_iff.2 ⟨by decide +kernel, herror⟩
  exact h salesBlock "chart".toList (salesBlock.take 22) 0 0 c (.inl (by decide +kernel)) hready
    (by decide +kernel) (by decide +kernel) .noData hfailed

end MarkdownPrep.Streaming
