import MarkdownPrep.Proofs.Chart.Reordering
import MarkdownPrep.Proofs.Json.KeyOrder
import MarkdownPrep.Proofs.Json.Shape

/-!
# Rows given as objects

The value of a data line is read as rows if all items of the array are objects, and as values if
not. Either way the objects are the rows, one after the other; but the first reader keeps the keys
of a row in the order of the source, and the second puts them in order (`areRows_of_dataLine`). So
the order of the source is kept if all items are objects, or if the keys of each object come in
order.
-/

namespace MarkdownPrep

/-! ## Objects among the items of an array -/

namespace Json

/-- An object. -/
def Tree.IsObject (t : Tree) : Prop := ∃ ms, t = .object ms

/-- A number. -/
def Tree.IsNumber (t : Tree) : Prop := ∃ l, t = .number l

/-- The members of the objects among some items, as they are written. -/
def objectsIn (ts : List Tree) : List (List (List Glyph × Tree)) :=
  ts.filterMap fun
    | .object ms => some ms
    | _ => none

/-- The members `ms`, as they are written, are decoded and make the object `r` in some order. -/
def MakesObject (order : List (Text × Value) → List (Text × Value) → Prop) (d : Nat)
    (ms : List (List Glyph × Tree)) (r : List (Text × Value)) : Prop :=
  ∃ es, Decoder.members ms d = some es ∧ order es r

namespace Decoder

variable {d : Nat} {ts : List Tree} {vs : List Value}

/-- Decoded as values, objects have their keys in order. -/
theorem forall₂_objectsOf (h : List.Forall₂ (fun t v => value t (d + 1) = some v) ts vs) :
    List.Forall₂ (MakesObject InKeyOrder d) (objectsIn ts) (Chart.objectsOf vs) := by
  induction h with
  | nil => exact .nil
  | @cons t v ts vs hv _ ih =>
    cases t with
    | object ms =>
      obtain ⟨es, hes, rfl⟩ := Option.map_eq_some_iff.1 hv
      exact .cons ⟨es, hes, inKeyOrder_foldl es⟩ ih
    | null | bool =>
      cases hv
      exact ih
    | number | string | array =>
      obtain ⟨_, _, rfl⟩ := Option.map_eq_some_iff.1 hv
      exact ih

/-- Decoded as rows, objects keep their keys in the order of the source. -/
theorem exists_records (hobjects : ∀ t ∈ ts, t.IsObject)
    (h : List.Forall₂ (fun t v => value t (d + 1) = some v) ts vs) :
    ∃ rows, list record (d + 2) (.array ts) = some rows ∧
      List.Forall₂ (MakesObject InSourceOrder d) (objectsIn ts) rows := by
  simp only [list_eq_some_iff]
  induction h with
  | nil => exact ⟨[], .nil, .nil⟩
  | @cons t v ts vs hv _ ih =>
    rw [List.forall_mem_cons] at hobjects
    obtain ⟨⟨ms, rfl⟩, hobjects⟩ := hobjects
    obtain ⟨es, hes, -⟩ := Option.map_eq_some_iff.1 hv
    obtain ⟨rows, hrows, hmakes⟩ := ih hobjects
    refine ⟨_ :: rows, .cons ?_ hrows, .cons ⟨es, hes, inSourceOrder_foldl es⟩ hmakes⟩
    rw [record, hes, Option.map_some]

theorem exists_array_of_list {α : Type} {decoder : Decoder α} {t : Tree} {as : List α}
    (h : list decoder d t = some as) : ∃ us, t = .array us := by
  match d, t with
  | 0, _ => exact absurd h nofun
  | d + 1, .array us => exact ⟨us, rfl⟩
  | d + 1, .null | d + 1, .bool _ | d + 1, .number _ | d + 1, .string _ | d + 1, .object _ =>
    exact absurd h nofun

/-- What is decoded as a row is an object that can be decoded as a value. -/
theorem isObject_of_record {t : Tree} {r : List (Text × Value)} (h : record d t = some r) :
    t.IsObject ∧ (value t d).isSome := by
  rw [isSome_value_iff]
  exact (accepts_record d t).1 (Option.isSome_of_eq_some h)

theorem isNumber_iff {t : Tree} {v : Value} (h : value t d = some v) :
    Chart.isNumber v ↔ t.IsNumber := by
  cases t with
  | number l =>
    obtain ⟨n, _, rfl⟩ := Option.map_eq_some_iff.1 h
    exact iff_of_true rfl ⟨l, rfl⟩
  | null | bool =>
    cases h
    exact iff_of_false nofun nofun
  | string =>
    obtain ⟨_, _, rfl⟩ := Option.map_eq_some_iff.1 h
    exact iff_of_false nofun nofun
  | array | object =>
    cases d with
    | zero => exact absurd h nofun
    | succ d =>
      obtain ⟨_, _, rfl⟩ := Option.map_eq_some_iff.1 h
      exact iff_of_false nofun nofun

theorem not_head?_any_isNumber (h : List.Forall₂ (fun t v => value t d = some v) ts vs)
    (hfirst : ∀ t ∈ ts.head?, ¬ t.IsNumber) : ¬ vs.head?.any Chart.isNumber := by
  cases h with
  | nil => nofun
  | @cons t v _ _ hv _ =>
    rw [List.head?_cons, Option.any_some, isNumber_iff hv]
    exact hfirst t rfl

end Decoder

end Json

namespace Chart

open Json

/-! ## Data lines -/

/-- The line `line` gives the value `value` to the data. -/
def IsDataLine (line value : Text) : Prop :=
  ∃ key, Text.splitOnce? ':' line = some (key, value) ∧ Setting.keyOf key = dataKey

/-- The text `value` is a JSON array of the items `ts`, and all of them can be decoded: numbers are
finite, strings have no lone surrogates, and nothing is nested too deep. -/
structure IsArray (value : Text) (ts : List Tree) : Prop where
  tree : Tree.read? (Text.trim value) = some (.array ts)
  decodes : ∃ vs, Decoder.list .anyValue maxDepth (.array ts) = some vs

/-- The data of an array of objects are its rows, and those of another array its values. -/
theorem exists_lineData {value : Text} {ts : List Tree} (h : IsArray value ts) :
    (∃ rows, LineData.read? (Text.trim value) = some (.records rows) ∧ (∀ t ∈ ts, t.IsObject) ∧
        List.Forall₂ (MakesObject InSourceOrder (maxDepth - 2)) (objectsIn ts) rows) ∨
      ∃ vs, LineData.read? (Text.trim value) = some (.values vs) ∧ (¬ ∀ t ∈ ts, t.IsObject) ∧
        List.Forall₂ (fun t v => Decoder.value t (maxDepth - 1) = some v) ts vs := by
  obtain ⟨htree, vs, hvs⟩ := h
  have hitems : List.Forall₂ (fun t v => Decoder.value t (maxDepth - 1) = some v) ts vs :=
    Decoder.list_eq_some_iff.1 hvs
  have hread : LineData.read? (Text.trim value) =
      ((Decoder.list .record maxDepth (.array ts)).map .records <|> some (.values vs)) := by
    rw [LineData.read?, readRecords?, Json.read?, Json.read?, htree, Option.bind_some,
      Option.bind_some, hvs, Option.map_some]
  rw [hread]
  by_cases hobjects : ∀ t ∈ ts, t.IsObject
  · obtain ⟨rows, hrows, hmakes⟩ := Decoder.exists_records hobjects hitems
    exact .inl ⟨rows, by rw [maxDepth, hrows]; rfl, hobjects, hmakes⟩
  · refine .inr ⟨vs, ?_, hobjects, hitems⟩
    cases hrows : Decoder.list .record maxDepth (.array ts) with
    | none => rfl
    | some rows =>
      have hall := isSome_mapM_iff.1 (Option.isSome_of_eq_some hrows)
      refine absurd (fun t ht => ?_) hobjects
      obtain ⟨r, hr⟩ := Option.isSome_iff_exists.1 (hall t ht)
      exact (Decoder.isObject_of_record hr).1

/-- Data are read from arrays only. -/
theorem exists_isArray_of_read? {value : Text} {data : LineData}
    (h : LineData.read? (Text.trim value) = some data) : ∃ ts, IsArray value ts := by
  rw [LineData.read?, Option.orElse_eq_orElse, Option.orElse_eq_or, Option.or_eq_some_iff] at h
  rcases h with h | ⟨-, h⟩
  · obtain ⟨rows, hread, -⟩ := Option.map_eq_some_iff.1 h
    obtain ⟨t, htree, hrows⟩ := Option.bind_eq_some_iff.1 hread
    obtain ⟨ts, rfl⟩ := Decoder.exists_array_of_list hrows
    refine ⟨ts, htree, Option.isSome_iff_exists.1 (isSome_mapM_iff.2 fun t ht => ?_)⟩
    obtain ⟨r, hr⟩ := Option.isSome_iff_exists.1
      (isSome_mapM_iff.1 (Option.isSome_of_eq_some hrows) t ht)
    exact (Decoder.isObject_of_record hr).2
  · obtain ⟨vs, hread, -⟩ := Option.map_eq_some_iff.1 h
    obtain ⟨t, htree, hvs⟩ := Option.bind_eq_some_iff.1 hread
    obtain ⟨ts, rfl⟩ := Decoder.exists_array_of_list hvs
    exact ⟨ts, htree, vs, hvs⟩

theorem stepLine_of_isDataLine {line value : Text} (h : IsDataLine line value)
    (state : Description × Option LineData) :
    stepLine state line = (state.1, LineData.read? (Text.trim value) <|> state.2) := by
  obtain ⟨key, hsplit, hkey⟩ := h
  rw [stepLine, hsplit]
  exact if_pos hkey

/-- Lines that give no array to the data leave the data that were read. -/
theorem foldl_stepLine_keeps_data {ls : List Text}
    (h : ∀ l ∈ ls, ∀ value ts, IsDataLine l value → ¬ IsArray value ts)
    (state : Description × Option LineData) : (ls.foldl stepLine state).2 = state.2 := by
  refine List.foldlRecOn (motive := (·.2 = state.2)) ls stepLine rfl fun state' hkept l hl => ?_
  rw [← hkept]
  cases hsplit : Text.splitOnce? ':' l with
  | none => rw [stepLine, hsplit]
  | some line =>
    by_cases hkey : Setting.keyOf line.1 = dataKey
    · have hline : IsDataLine l line.2 := ⟨line.1, hsplit, hkey⟩
      rw [stepLine_of_isDataLine hline]
      cases hread : LineData.read? (Text.trim line.2) with
      | none => rfl
      | some data =>
        obtain ⟨ts, hts⟩ := exists_isArray_of_read? hread
        exact absurd hts (h l hl line.2 ts hline)
    · simp only [stepLine, hsplit, if_neg hkey]

/-- The data of a block are those of its last line that gives some. -/
theorem readLines_of_dataLine {text line value : Text} {above below : List Text} {data : LineData}
    (hlines : Text.lines (Text.trim text) = above ++ line :: below)
    (hline : IsDataLine line value) (hdata : LineData.read? (Text.trim value) = some data)
    (hlast : ∀ l ∈ below, ∀ value ts, IsDataLine l value → ¬ IsArray value ts) :
    ∃ c : Description, readLines text = (c.withData data).withColors := by
  have hstate := foldl_stepLine_keeps_data hlast
    (stepLine (above.foldl stepLine ({ colors := some standardColors }, none)) line)
  rw [← List.foldl_cons, ← List.foldl_append, ← hlines, stepLine_of_isDataLine hline, hdata]
    at hstate
  cases hfold : (Text.lines (Text.trim text)).foldl stepLine
      ({ colors := some standardColors }, none) with
  | mk c read =>
    rw [hfold] at hstate
    obtain rfl : read = some data := hstate
    exact ⟨c, by rw [readLines, hfold]⟩

/-! ## Rows -/

/-- The rows are the objects among the items `ts`, one after the other, with their members in some
order. -/
def AreRows (order : List (Text × Value) → List (Text × Value) → Prop) (ts : List Tree)
    (rows : List Record) : Prop :=
  List.Forall₂ (MakesObject order (maxDepth - 2)) (objectsIn ts) rows

/-- The keys of each object among the items `ts` come in their order, repetitions aside. -/
def KeysAscend (ts : List Tree) : Prop :=
  ∀ ms ∈ objectsIn ts, ∀ es, Decoder.members ms (maxDepth - 2) = some es →
    (es.map Prod.fst).eraseDups.Pairwise (· < ·)

/-- Rows with their keys in order are in the order of the source if that is in order as well. -/
theorem AreRows.inSourceOrder_iff {ts : List Tree} {rows : List Record}
    (h : AreRows InKeyOrder ts rows) : AreRows InSourceOrder ts rows ↔ KeysAscend ts := by
  rw [AreRows] at h
  rw [AreRows, KeysAscend]
  generalize objectsIn ts = objects at h ⊢
  induction h with
  | nil => simp
  | @cons ms r objects rows hr _ ih =>
    obtain ⟨es, hes, horder⟩ := hr
    rw [List.forall₂_cons, List.forall_mem_cons, ih]
    refine and_congr ?_ Iff.rfl
    rw [MakesObject, hes]
    simpa using horder.inSourceOrder_iff

section
variable {text line value : Text} {above below : List Text} {ts : List Tree}

/-- The rows of a block are the objects of the array in its last data line that has one. -/
theorem areRows_of_dataLine (hlines : Text.lines (Text.trim text) = above ++ line :: below)
    (hline : IsDataLine line value) (harray : IsArray value ts)
    (hlast : ∀ l ∈ below, ∀ value ts, IsDataLine l value → ¬ IsArray value ts)
    (hfirst : ∀ t ∈ ts.head?, ¬ t.IsNumber) :
    (∀ t ∈ ts, t.IsObject) ∧ AreRows InSourceOrder ts (readLines text).data ∨
      (¬ ∀ t ∈ ts, t.IsObject) ∧ AreRows InKeyOrder ts (readLines text).data := by
  rcases exists_lineData harray with ⟨rows, hread, hobjects, hrows⟩ | ⟨vs, hread, hmixed, hvs⟩
  · obtain ⟨c, hc⟩ := readLines_of_dataLine hlines hline hread hlast
    refine .inl ⟨hobjects, ?_⟩
    rw [hc]
    exact hrows
  · obtain ⟨c, hc⟩ := readLines_of_dataLine hlines hline hread hlast
    refine .inr ⟨hmixed, ?_⟩
    rw [hc, Description.withData, if_neg (Decoder.not_head?_any_isNumber hvs hfirst)]
    exact Decoder.forall₂_objectsOf hvs

/-- **The objects of an array are the rows of its chart**, one after the other, if the array starts
with no number. In an array of objects they keep the order of their keys; among other items they
have their keys in order, so they keep it only if it is that order. -/
theorem read_of_dataLine {tag : Text} (hbar : '|' ∉ text)
    (htag : Tag.ofText? tag = some .chart ∨ Tag.ofText? tag = some .chartTable)
    (hlines : Text.lines (Text.trim text) = above ++ line :: below)
    (hline : IsDataLine line value) (harray : IsArray value ts)
    (hlast : ∀ l ∈ below, ∀ value ts, IsDataLine l value → ¬ IsArray value ts)
    (hfirst : ∀ t ∈ ts.head?, ¬ t.IsNumber) :
    ∃ c, Description.read text tag = .ok c ∧
      ((∀ t ∈ ts, t.IsObject) → AreRows InSourceOrder ts c.data) ∧
      ((¬ ∀ t ∈ ts, t.IsObject) → AreRows InKeyOrder ts c.data) ∧
      (AreRows InSourceOrder ts c.data ↔ (∀ t ∈ ts, t.IsObject) ∨ KeysAscend ts) := by
  refine ⟨readLines text, read_of_not_mem_bar hbar htag, ?_⟩
  rcases areRows_of_dataLine hlines hline harray hlast hfirst with
    ⟨hobjects, hrows⟩ | ⟨hmixed, hrows⟩
  · exact ⟨fun _ => hrows, fun h => absurd hobjects h, fun _ => .inl hobjects, fun _ => hrows⟩
  · rw [hrows.inSourceOrder_iff]
    exact ⟨fun h => absurd h hmixed, fun _ => hrows, .inr, fun h => h.resolve_left hmixed⟩

end

/-- A block with a number among its objects, between data that are no array. -/
def mixedBlock : Text :=
  "data: 6\n Data : [\x7b\"z\": 1, \"a\": 2, \"z\": 3\x7d, 5]\ndata: 7\ntype: bar".toList

/-- The text of the array in the block. -/
def mixedArray : Text := " [\x7b\"z\": 1, \"a\": 2, \"z\": 3\x7d, 5]".toList

/-- The items of the array. -/
def mixedItems : List Tree :=
  [.object [([.char 'z'], .number ⟨false, ['1'], none, none⟩),
      ([.char 'a'], .number ⟨false, ['2'], none, none⟩),
      ([.char 'z'], .number ⟨false, ['3'], none, none⟩)],
    .number ⟨false, ['5'], none, none⟩]

theorem isArray_mixedArray : IsArray mixedArray mixedItems := ⟨rfl, _, rfl⟩

theorem not_isArray_seven (value : Text) (ts : List Tree) (h : IsDataLine "data: 7".toList value) :
    ¬ IsArray value ts := by
  obtain ⟨key, hsplit, -⟩ := h
  have hseven : Text.splitOnce? ':' "data: 7".toList = some ("data".toList, " 7".toList) := by
    decide +kernel
  obtain ⟨-, rfl⟩ := Prod.mk.inj (Option.some.inj (hsplit.symm.trans hseven))
  have htree : Tree.read? (Text.trim " 7".toList) = some (.number ⟨false, ['7'], none, none⟩) := rfl
  rintro ⟨harray, -⟩
  cases htree.symm.trans harray

theorem not_isDataLine_type (value : Text) : ¬ IsDataLine "type: bar".toList value := by
  rintro ⟨key, hsplit, hkey⟩
  have htype : Text.splitOnce? ':' "type: bar".toList = some ("type".toList, " bar".toList) := by
    decide +kernel
  obtain ⟨rfl, -⟩ := Prod.mk.inj (Option.some.inj (hsplit.symm.trans htype))
  exact absurd hkey (by decide +kernel)

theorem not_isNumber_of_mem_head?_mixedItems : ∀ t ∈ mixedItems.head?, ¬ t.IsNumber := by
  rintro _ ⟨⟩ ⟨l, hl⟩
  cases hl

theorem not_forall_isObject_mixedItems : ¬ ∀ t ∈ mixedItems, t.IsObject := by
  intro h
  obtain ⟨ms, hms⟩ := h (.number ⟨false, ['5'], none, none⟩)
    (List.mem_cons_of_mem _ List.mem_cons_self)
  cases hms

theorem read_of_dataLine_of_mixed :
    '|' ∉ mixedBlock ∧ Tag.ofText? "Chart".toList = some .chart ∧
      Text.lines (Text.trim mixedBlock) = ["data: 6".toList] ++
        (" Data :".toList ++ mixedArray) :: ["data: 7".toList, "type: bar".toList] ∧
      IsDataLine (" Data :".toList ++ mixedArray) mixedArray ∧ IsArray mixedArray mixedItems ∧
      (∀ l ∈ ["data: 7".toList, "type: bar".toList], ∀ value ts, IsDataLine l value →
        ¬ IsArray value ts) ∧
      (∀ t ∈ mixedItems.head?, ¬ t.IsNumber) ∧
      ∃ c, Description.read mixedBlock "Chart".toList = .ok c ∧
        ((∀ t ∈ mixedItems, t.IsObject) → AreRows InSourceOrder mixedItems c.data) ∧
        ((¬ ∀ t ∈ mixedItems, t.IsObject) → AreRows InKeyOrder mixedItems c.data) ∧
        (AreRows InSourceOrder mixedItems c.data ↔
          (∀ t ∈ mixedItems, t.IsObject) ∨ KeysAscend mixedItems) := by
  have hbar : '|' ∉ mixedBlock := by decide +kernel
  have htag : Tag.ofText? "Chart".toList = some .chart := by decide +kernel
  have hlines : Text.lines (Text.trim mixedBlock) = ["data: 6".toList] ++
      (" Data :".toList ++ mixedArray) :: ["data: 7".toList, "type: bar".toList] := by
    decide +kernel
  have hline : IsDataLine (" Data :".toList ++ mixedArray) mixedArray :=
    ⟨" Data ".toList, by decide +kernel, by decide +kernel⟩
  have hlast : ∀ l ∈ ["data: 7".toList, "type: bar".toList], ∀ value ts, IsDataLine l value →
      ¬ IsArray value ts := by
    simp only [List.forall_mem_cons, List.not_mem_nil, false_imp_iff, implies_true, and_true]
    exact ⟨not_isArray_seven, fun value _ h => absurd h (not_isDataLine_type value)⟩
  exact ⟨hbar, htag, hlines, hline, isArray_mixedArray, hlast,
    not_isNumber_of_mem_head?_mixedItems, read_of_dataLine hbar (.inl htag) hlines hline
      isArray_mixedArray hlast not_isNumber_of_mem_head?_mixedItems⟩

theorem not_keysAscend_mixedItems : ¬ KeysAscend mixedItems := by
  intro h
  have hkeys := h _ List.mem_cons_self _ rfl
  revert hkeys
  decide +kernel

/-- Among other items the keys of an object come out in their order, and not in that of the
source. -/
theorem not_keeps_source_order : ¬ ∀ (text tag line value : Text) (above : List Text)
    (ts : List Tree), '|' ∉ text → Tag.ofText? tag = some .chart →
      Text.lines (Text.trim text) = above ++ [line] → IsDataLine line value → IsArray value ts →
      (∀ t ∈ ts.head?, ¬ t.IsNumber) → ∀ c, Description.read text tag = .ok c →
        AreRows InSourceOrder ts c.data := by
  intro h
  have hbar : '|' ∉ "type: bar\ndata:".toList ++ mixedArray := by decide +kernel
  have htag : Tag.ofText? "chart".toList = some .chart := by decide +kernel
  have hlines : Text.lines (Text.trim ("type: bar\ndata:".toList ++ mixedArray)) =
      ["type: bar".toList] ++ ["data:".toList ++ mixedArray] := by decide +kernel
  have hline : IsDataLine ("data:".toList ++ mixedArray) mixedArray :=
    ⟨"data".toList, by decide +kernel, by decide +kernel⟩
  have hsource := h _ _ _ mixedArray _ mixedItems hbar htag hlines hline isArray_mixedArray
    not_isNumber_of_mem_head?_mixedItems _ (read_of_not_mem_bar hbar (.inl htag))
  rcases areRows_of_dataLine hlines hline isArray_mixedArray nofun
    not_isNumber_of_mem_head?_mixedItems with ⟨hobjects, -⟩ | ⟨-, hrows⟩
  · exact not_forall_isObject_mixedItems hobjects
  · exact not_keysAscend_mixedItems (hrows.inSourceOrder_iff.1 hsource)

end Chart

end MarkdownPrep
