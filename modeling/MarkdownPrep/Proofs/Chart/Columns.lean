import MarkdownPrep.Proofs.Chart.WrittenTable

/-!
# Cells and the headers above them

A header cell may be blank, as the one above the row labels often is. A blank header gives no
column, but the cells below it are not left out with it: the cells of a row are filed one after the
other under the names that the header gives (`recordOf?`). So a row gives the record in which each
cell is filed under its own header (`filedRecord?`) if and only if its first cells, as many as there
are names, hold what the cells below the names hold (`read_tableText_columns`).
-/

namespace MarkdownPrep.Chart

/-- What a cell puts into a record: nothing if it is blank. -/
def cellValue? (cell : Text) : Option Json.Value :=
  if cell.isEmpty then none else some (readCell cell)

/-- The cells of a row that stand below a name. -/
def ownCells (headers cells : List Text) : List Text :=
  (headers.zip cells).filterMap fun (header, cell) => if header.isEmpty then none else some cell

/-- The record of a row in which every cell is filed under the header of its own column, where
neither of the two is blank. No record comes of a row of blank cells. -/
def filedRecord? (headers cells : List Text) : Option Record :=
  if cells.all List.isEmpty then none
  else some <| (headers.zip cells).filterMap fun (header, cell) =>
    if header.isEmpty then none else (cellValue? cell).map (header, ·)

/-- The members of a record with these values under these names. -/
def membersOf (names : List Text) (values : List (Option Json.Value)) : Record :=
  (names.zip values).filterMap fun (name, value) => value.map (name, ·)

section
variable {names headers cells : List Text} {values values' : List (Option Json.Value)}

theorem membersOf_cons (name : Text) (value : Option Json.Value) :
    membersOf (name :: names) (value :: values) =
      (value.map (name, ·)).toList ++ membersOf names values := by
  cases value <;> rfl

theorem fst_mem_of_mem_membersOf {member : Text × Json.Value}
    (h : member ∈ membersOf names values) : member.1 ∈ names := by
  obtain ⟨⟨name, value⟩, hzip, hmember⟩ := List.mem_filterMap.1 h
  obtain ⟨_, -, rfl⟩ := Option.map_eq_some_iff.1 hmember
  exact (List.of_mem_zip hzip).1

/-- Under distinct names the members tell the values. -/
theorem membersOf_inj (hnodup : names.Nodup) (hlen : values.length = names.length)
    (hlen' : values'.length = names.length) :
    membersOf names values = membersOf names values' ↔ values = values' := by
  refine ⟨fun h => ?_, fun h => h ▸ rfl⟩
  induction names generalizing values values' with
  | nil => rw [List.length_eq_zero_iff.1 hlen, List.length_eq_zero_iff.1 hlen']
  | cons name names ih =>
    obtain ⟨value, values, rfl⟩ := List.exists_cons_of_length_eq_add_one hlen
    obtain ⟨value', values', rfl⟩ := List.exists_cons_of_length_eq_add_one hlen'
    rw [List.nodup_cons] at hnodup
    have hrest := ih hnodup.2 (Nat.succ.inj hlen) (Nat.succ.inj hlen')
    -- a member with the first name is there if and only if the first value is
    have hfirst : ∀ x values, (name, x) ∉ membersOf names values :=
      fun x values hm => hnodup.1 (fst_mem_of_mem_membersOf hm)
    rw [membersOf_cons, membersOf_cons] at h
    cases value with
    | none =>
      cases value' with
      | none => rw [hrest h]
      | some x' =>
        have h : membersOf names values = (name, x') :: membersOf names values' := h
        exact absurd (h ▸ List.mem_cons_self) (hfirst x' values)
    | some x =>
      cases value' with
      | none =>
        have h : (name, x) :: membersOf names values = membersOf names values' := h
        exact absurd (h ▸ List.mem_cons_self) (hfirst x values')
      | some x' =>
        obtain ⟨hx, htail⟩ := List.cons.inj h
        cases hx
        rw [hrest htail]

theorem columnNames_cons (header : Text) : columnNames (header :: headers) =
    if header.isEmpty then columnNames headers else header :: columnNames headers := by
  rw [columnNames, List.filter_cons]
  cases header <;> rfl

theorem ownCells_cons (header cell : Text) : ownCells (header :: headers) (cell :: cells) =
    if header.isEmpty then ownCells headers cells else cell :: ownCells headers cells := by
  cases header <;> rfl

theorem length_ownCells (h : cells.length = headers.length) :
    (ownCells headers cells).length = (columnNames headers).length := by
  induction headers generalizing cells with
  | nil => rfl
  | cons header headers ih =>
    obtain ⟨cell, cells, rfl⟩ := List.exists_cons_of_length_eq_add_one h
    have hrest := ih (Nat.succ.inj h)
    rw [ownCells_cons, columnNames_cons]
    split
    · exact hrest
    · exact congrArg Nat.succ hrest

theorem mem_of_mem_ownCells {cell : Text} (h : cell ∈ ownCells headers cells) : cell ∈ cells := by
  obtain ⟨⟨header, own⟩, hzip, hown⟩ := List.mem_filterMap.1 h
  dsimp only at hown
  split at hown
  · cases hown
  · cases hown
    exact (List.of_mem_zip hzip).2

theorem recordOf?_eq : recordOf? names cells =
    if cells.all List.isEmpty then none
    else some (membersOf names ((cells.take names.length).map cellValue?)) := by
  rw [recordOf?]
  congr 2
  induction names generalizing cells with
  | nil => rfl
  | cons name names ih =>
    cases cells with
    | nil => rfl
    | cons cell cells =>
      rw [List.length_cons, List.take_succ_cons, List.map_cons, membersOf_cons, ← ih,
        List.zip_cons_cons, List.filterMap_cons]
      by_cases hcell : cell.isEmpty <;> simp [hcell, cellValue?]

theorem filedRecord?_eq : filedRecord? headers cells =
    if cells.all List.isEmpty then none
    else some (membersOf (columnNames headers) ((ownCells headers cells).map cellValue?)) := by
  rw [filedRecord?]
  congr 2
  induction headers generalizing cells with
  | nil => rfl
  | cons header headers ih =>
    cases cells with
    | nil => simp [ownCells, membersOf]
    | cons cell cells =>
      rw [List.zip_cons_cons, List.filterMap_cons, ih, columnNames_cons, ownCells_cons]
      by_cases hblank : header.isEmpty
      · simp only [hblank, if_true]
      · simp only [hblank, Bool.false_eq_true, if_false, List.map_cons, membersOf_cons]
        cases cellValue? cell <;> rfl

/-- **A row gives the record of its own columns** if and only if its first cells are worth what the
cells below the names are worth. -/
theorem recordOf?_eq_filedRecord?_iff (hnodup : (columnNames headers).Nodup)
    (h : cells.length = headers.length) :
    recordOf? (columnNames headers) cells = filedRecord? headers cells ↔
      (cells.take (columnNames headers).length).map cellValue? =
        (ownCells headers cells).map cellValue? := by
  have hle : (columnNames headers).length ≤ headers.length := List.length_filter_le _ _
  have hlen : ((cells.take (columnNames headers).length).map cellValue?).length =
      (columnNames headers).length := by
    rw [List.length_map, List.length_take]
    omega
  have hlen' : ((ownCells headers cells).map cellValue?).length = (columnNames headers).length := by
    rw [List.length_map, length_ownCells h]
  rw [recordOf?_eq, filedRecord?_eq]
  by_cases hblank : cells.all List.isEmpty
  · -- blank cells are worth nothing in any column
    have hnone : ∀ part : List Text, part ⊆ cells → ∀ value ∈ part.map cellValue?, value = none := by
      intro part hpart value hvalue
      obtain ⟨cell, hcell, rfl⟩ := List.mem_map.1 hvalue
      exact if_pos (List.all_eq_true.1 hblank cell (hpart hcell))
    rw [if_pos hblank, if_pos hblank]
    refine iff_of_true rfl ?_
    rw [List.eq_replicate_iff.2 ⟨hlen, hnone _ (List.take_subset _ _)⟩,
      List.eq_replicate_iff.2 ⟨hlen', hnone _ fun _ => mem_of_mem_ownCells⟩]
  · rw [if_neg hblank, if_neg hblank, Option.some_inj]
    exact membersOf_inj hnodup hlen hlen'

/-! ## Blank headers before a name -/

theorem ownCells_self (headers : List Text) : ownCells headers headers = columnNames headers := by
  induction headers with
  | nil => rfl
  | cons header headers ih => rw [ownCells_cons, columnNames_cons, ih]

/-- Where the names are the first headers, the cells below them are the first ones. -/
theorem ownCells_eq_take
    (h : ∀ header ∈ headers.take (columnNames headers).length, header ≠ []) :
    ownCells headers cells = cells.take (columnNames headers).length := by
  induction headers generalizing cells with
  | nil => rfl
  | cons header headers ih =>
    cases cells with
    | nil => simp [ownCells]
    | cons cell cells =>
      rw [columnNames_cons] at h ⊢
      rw [ownCells_cons]
      by_cases hblank : header.isEmpty
      · -- there is no name after a blank header
        simp only [hblank, if_true] at h ⊢
        cases hnames : columnNames headers with
        | nil =>
          have htail : ownCells headers cells = cells.take (columnNames headers).length :=
            ih (by simp [hnames])
          rwa [hnames] at htail
        | cons name names =>
          rw [hnames, List.length_cons, List.take_succ_cons] at h
          exact absurd (List.isEmpty_iff.1 hblank) (h header List.mem_cons_self)
      · simp only [hblank, Bool.false_eq_true, if_false, List.length_cons, List.take_succ_cons,
          List.forall_mem_cons] at h ⊢
        rw [ih h.2]

/-- **Every row gives the record of its own columns** if and only if no blank header stands before
a name. -/
theorem forall_recordOf?_eq_iff (hnodup : (columnNames headers).Nodup)
    (hheaders : ∀ header ∈ headers, IsCell header) :
    (∀ cells : List Text, cells.length = headers.length → (∀ cell ∈ cells, IsCell cell) →
        recordOf? (columnNames headers) cells = filedRecord? headers cells) ↔
      ∀ header ∈ headers.take (columnNames headers).length, header ≠ [] := by
  constructor
  · -- the headers themselves are a row that tells
    intro h header hm
    have hsame := (recordOf?_eq_filedRecord?_iff hnodup rfl).1 (h headers rfl hheaders)
    rw [ownCells_self] at hsame
    have hvalue : cellValue? header ∈ (columnNames headers).map cellValue? :=
      hsame ▸ List.mem_map_of_mem hm
    obtain ⟨name, hname, heq⟩ := List.mem_map.1 hvalue
    rintro rfl
    have hfilled : name.isEmpty = false := by simpa using (List.mem_filter.1 hname).2
    simp [cellValue?, hfilled] at heq
  · intro h cells hlen _
    rw [recordOf?_eq_filedRecord?_iff hnodup hlen, ownCells_eq_take h]

end

/-- **A table is read with each cell under the name that has as many names before it as the cell
has cells.** So a row gives the record of its own columns if and only if its first cells are worth
what the cells below the names are worth. -/
theorem read_tableText_columns {tag : Tag} (htag : tag ≠ .chartJson)
    {settings headers : List Text} {separator : Text} {rows : List (List Text)} {tail : Text}
    (hfilled : ∃ header ∈ headers, header ≠ []) (hnodup : (columnNames headers).Nodup)
    (hheaders : ∀ header ∈ headers, IsCell header)
    (hrows : ∀ cells ∈ rows, cells.length = headers.length ∧ ∀ cell ∈ cells, IsCell cell)
    (hsettings : ∀ l ∈ settings, '|' ∉ l ∧ '\n' ∉ l)
    (hseparator : '|' ∈ separator ∧ '\n' ∉ separator) (htail : ∀ c ∈ tail, isBlank c) :
    Description.read (tableText settings headers separator rows ++ tail) tag.name =
        .ok (settings.foldl Description.setLine (tableBase (columnNames headers) rows)).withColors ∧
      ∀ cells ∈ rows, recordOf? (columnNames headers) cells = filedRecord? headers cells ↔
        (cells.take (columnNames headers).length).map cellValue? =
          (ownCells headers cells).map cellValue? := by
  have hne : columnNames headers ≠ [] := by
    obtain ⟨header, hm, hheader⟩ := hfilled
    exact List.ne_nil_of_mem (List.mem_filter.2 ⟨hm, by simpa using hheader⟩)
  exact ⟨read_tableText_of_headers htag hne hnodup hheaders (fun cells hc => (hrows cells hc).2)
    hsettings hseparator htail, fun cells hc => recordOf?_eq_filedRecord?_iff hnodup (hrows cells hc).1⟩

/-- Below a blank corner a row is filed right only where its cells agree. -/
theorem read_tableText_columns_of_corner :
    Description.read (tableText ["type: bar".toList] ["".toList, "A".toList, "B".toList]
        "|---|---|---|".toList [["x".toList, "1".toList, "2".toList],
          ["7".toList, "7".toList, "7".toList], ["".toList, "".toList, "".toList]] ++ ['\n'])
        "chart".toList =
      .ok (["type: bar".toList].foldl Description.setLine
        (tableBase ["A".toList, "B".toList] [["x".toList, "1".toList, "2".toList],
          ["7".toList, "7".toList, "7".toList], ["".toList, "".toList, "".toList]])).withColors ∧
      recordOf? ["A".toList, "B".toList] ["x".toList, "1".toList, "2".toList] ≠
        filedRecord? ["".toList, "A".toList, "B".toList] ["x".toList, "1".toList, "2".toList] ∧
      recordOf? ["A".toList, "B".toList] ["7".toList, "7".toList, "7".toList] =
        filedRecord? ["".toList, "A".toList, "B".toList] ["7".toList, "7".toList, "7".toList] := by
  have h := @read_tableText_columns .chart (by decide) ["type: bar".toList]
    ["".toList, "A".toList, "B".toList] "|---|---|---|".toList
    [["x".toList, "1".toList, "2".toList], ["7".toList, "7".toList, "7".toList],
      ["".toList, "".toList, "".toList]] ['\n']
    (by decide) (by decide) (by decide) (by decide) (by decide) (by decide)
    (List.forall_mem_singleton.2 rfl)
  refine ⟨h.1, fun heq => ?_, (h.2 _ (by simp)).2 rfl⟩
  have hvalues := (h.2 _ List.mem_cons_self).1 heq
  have hlabel : cellValue? "x".toList = some (.string "x".toList) := rfl
  have hone : cellValue? "1".toList = some (.number (.int 1)) := rfl
  have hfirst : cellValue? "x".toList = cellValue? "1".toList := (List.cons.inj hvalues).1
  rw [hlabel, hone] at hfirst
  cases hfirst

/-- Below a blank corner the label of a row is filed under the first name. -/
theorem read_ne_filed_of_corner :
    Description.read "|  | A | B |\n|---|---|---|\n| x | 1 | 2 |".toList "chart".toList ≠
      .ok { data := (filedRecord? ["".toList, "A".toList, "B".toList]
              ["x".toList, "1".toList, "2".toList]).toList
            colors := some standardColors
            xKey := some "A".toList
            dataKeys := some ["B".toList] } := by
  have hread : Description.read "|  | A | B |\n|---|---|---|\n| x | 1 | 2 |".toList "chart".toList =
      .ok { data := [[("A".toList, .string "x".toList), ("B".toList, .number (.int 1))]]
            colors := some standardColors
            xKey := some "A".toList
            dataKeys := some ["B".toList] } := rfl
  have hfiled : filedRecord? ["".toList, "A".toList, "B".toList]
      ["x".toList, "1".toList, "2".toList] =
        some [("A".toList, .number (.int 1)), ("B".toList, .number (.int 2))] := rfl
  rw [hread, hfiled]
  intro h
  have hdata := congrArg Description.data (Except.ok.inj h)
  cases hdata

end MarkdownPrep.Chart
