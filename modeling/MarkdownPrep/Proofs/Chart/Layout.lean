import Mathlib.Data.List.Forall2
import Mathlib.Data.List.Induction
import MarkdownPrep.Chart.Layout

/-!
# What a layout shows

A layout shows the series that its description asks for (`Description.AsksFor`) as far as they have
a key, the n-th of them in the n-th colour of the palette unless it has a colour of its own
(`Description.Draws`). The names of the series on an axis, each at its first place
(`AtFirstPlaces`), label the axis. As no series without a key is drawn, every series that is drawn
has a name to show (`shownName_ne_nil`), so an axis has an inferred label if and only if a series is
on it (`inferredLabel?_eq_none_iff`); this is why a label of the right axis is never missed
(`layout_shows`).
-/

namespace MarkdownPrep.Chart

/-! ## Names, each at its first place -/

/-- The names `ns` are those in `all`, each once and in the order of their first places there. -/
structure AtFirstPlaces (all ns : List Text) : Prop where
  mem_iff : ∀ n, n ∈ ns ↔ n ∈ all
  inOrder : ns.Pairwise fun m n => all.idxOf m < all.idxOf n

theorem atFirstPlaces_eraseDups (all : List Text) : AtFirstPlaces all all.eraseDups := by
  refine ⟨fun _ => List.mem_eraseDups, ?_⟩
  induction all using List.reverseRecOn with
  | nil => exact List.Pairwise.nil
  | append_singleton all a ih =>
    -- the places of names that were there before stay
    have hold : all.eraseDups.Pairwise fun m n => (all ++ [a]).idxOf m < (all ++ [a]).idxOf n := by
      refine ih.imp_of_mem fun {m n} hm hn hlt => ?_
      rwa [List.idxOf_append_of_mem (List.mem_eraseDups.1 hm),
        List.idxOf_append_of_mem (List.mem_eraseDups.1 hn)]
    rw [List.eraseDups_append]
    by_cases ha : a ∈ all
    · have hnone : [a].removeAll all = [] := by simpa [List.removeAll] using ha
      rwa [hnone, List.eraseDups_nil, List.append_nil]
    · have hone : [a].removeAll all = [a] := by simpa [List.removeAll] using ha
      rw [hone, List.pairwise_append]
      refine ⟨hold, List.pairwise_singleton _ _, fun m hm n hn => ?_⟩
      obtain rfl : n = a := by simpa using hn
      rw [List.idxOf_append_of_mem (List.mem_eraseDups.1 hm), List.idxOf_append_of_notMem ha]
      exact Nat.lt_add_right _ (List.idxOf_lt_length_of_mem (List.mem_eraseDups.1 hm))

/-! ## Series -/

/-- The series that a description asks for. -/
inductive Description.AsksFor (c : Description) : List Series → Prop where
  /-- Those that it lists. -/
  | listed {ss : List Series} (hlisted : c.series = some ss) (hne : ss ≠ []) : c.AsksFor ss
  /-- One for each data key. -/
  | keys {keys : List Text} (hnone : c.series.getD [] = []) (hkeys : c.dataKeys = some keys)
      (hne : keys ≠ []) : c.AsksFor (keys.map fun key => { key := some key })
  | value (hnone : c.series.getD [] = []) (hnokeys : c.dataKeys.getD [] = []) :
      c.AsksFor [{ key := some "value".toList }]

theorem asksFor_baseSeries (c : Description) : c.AsksFor c.baseSeries := by
  unfold Description.baseSeries
  rcases hseries : c.series with _ | _ | ⟨s, ss⟩
  case some.cons => exact .listed hseries (List.cons_ne_nil s ss)
  all_goals
    have hnone : c.series.getD [] = [] := by rw [hseries]; rfl
    rcases hkeys : c.dataKeys with _ | _ | ⟨k, ks⟩
    case some.cons => exact .keys hnone hkeys (List.cons_ne_nil k ks)
    all_goals exact .value hnone (by rw [hkeys]; rfl)

/-- True when a series has a key and not an empty one. -/
def Series.hasKey (s : Series) : Bool := s.key.any (!·.isEmpty)

theorem keyedSeries_eq (ss : List Series) :
    keyedSeries ss = (ss.filter Series.hasKey).map fun s => (s.key.getD [], s) := by
  induction ss with
  | nil => rfl
  | cons s ss ih =>
    rw [keyedSeries, List.filterMap_cons, ← keyedSeries, ih, List.filter_cons, Series.hasKey]
    rcases hkey : s.key with _ | _ | ⟨d, key⟩ <;> simp [hkey, Option.filter]

/-- The series with a key are drawn, each by its place among them. -/
theorem drawnSeries_eq (c : Description) : c.drawnSeries =
    (c.baseSeries.filter Series.hasKey).zipIdx.map fun si =>
      c.drawSeries si.2 (si.1.key.getD []) si.1 := by
  rw [Description.drawnSeries, keyedSeries_eq, List.zipIdx_map, List.map_map]
  rfl

/-- The series `d` is drawn for `s`, of which `i` series with a key stand in front. -/
structure Description.Draws (c : Description) (i : Nat) (s : Series) (d : DrawnSeries) : Prop where
  key : s.key = some d.key
  key_ne_nil : d.key ≠ []
  name : d.name = s.name.getD d.key
  axis : d.axis = s.axis.getD .left
  ownColor : ∀ color, s.color = some color → d.color = color
  color : s.color = none → c.palette[i % c.palette.length]? = some d.color
  mark : c.kind ≠ some .composed → d.mark = (c.kind.getD .bar).mark
  ownMark : c.kind = some .composed → d.mark = s.mark.getD .bar

theorem palette_ne_nil (c : Description) : c.palette ≠ [] := by
  unfold Description.palette
  split
  · exact List.cons_ne_nil _ _
  · decide

theorem drawSeries_color (c : Description) (i : Nat) (key : Text) (s : Series) :
    (c.drawSeries i key s).color = s.color.getD (c.palette[i % c.palette.length]?.getD []) := rfl

theorem drawSeries_mark (c : Description) (i : Nat) (key : Text) (s : Series) :
    (c.drawSeries i key s).mark = if c.kind.getD .bar = .composed
      then s.mark.getD (c.kind.getD .bar).mark else (c.kind.getD .bar).mark := rfl

theorem draws_drawSeries (c : Description) (i : Nat) {s : Series} (hs : s.hasKey) :
    c.Draws i s (c.drawSeries i (s.key.getD []) s) := by
  obtain ⟨key, hkey, hne⟩ : ∃ key, s.key = some key ∧ key ≠ [] := by
    simpa [Series.hasKey, Option.any_eq_true] using hs
  have hindex : i % c.palette.length < c.palette.length :=
    Nat.mod_lt i (List.length_pos_iff.2 (palette_ne_nil c))
  rw [hkey, Option.getD_some]
  constructor
  case key => exact hkey
  case key_ne_nil => exact hne
  case name => rfl
  case axis => rfl
  case ownColor =>
    intro color hcolor
    rw [drawSeries_color, hcolor, Option.getD_some]
  case color =>
    intro hcolor
    rw [drawSeries_color, hcolor, Option.getD_none, List.getElem?_eq_getElem hindex,
      Option.getD_some]
  case mark =>
    intro hkind
    have hplain : c.kind.getD .bar ≠ .composed := by cases hk : c.kind <;> simp_all
    rw [drawSeries_mark, if_neg hplain]
  case ownMark =>
    intro hkind
    rw [drawSeries_mark, hkind, Option.getD_some, if_pos rfl]
    rfl

theorem forall₂_drawnSeries (c : Description) :
    List.Forall₂ (fun si d => c.Draws si.2 si.1 d) (c.baseSeries.filter Series.hasKey).zipIdx
      c.drawnSeries := by
  rw [drawnSeries_eq, List.forall₂_map_right_iff, List.forall₂_same]
  intro si hsi
  exact draws_drawSeries c si.2 (List.mem_filter.1 (List.fst_mem_of_mem_zipIdx hsi)).2

theorem key_ne_nil_of_mem_drawnSeries (c : Description) : ∀ d ∈ c.drawnSeries, d.key ≠ [] := by
  intro d hd
  rw [drawnSeries_eq] at hd
  obtain ⟨si, hsi, rfl⟩ := List.mem_map.1 hd
  exact (draws_drawSeries c si.2 (List.mem_filter.1 (List.fst_mem_of_mem_zipIdx hsi)).2).key_ne_nil

/-! ## Labels of axes -/

theorem shownName_ne_nil {d : DrawnSeries} (h : d.key ≠ []) : d.shownName ≠ [] := by
  unfold DrawnSeries.shownName
  split
  · exact h
  · next hname => simpa using hname

/-- The label of the series on an axis: the names that they show, each at its first place. -/
def NamesAxis (ds : List DrawnSeries) (axis : Side) (label : Text) : Prop :=
  ∃ names, AtFirstPlaces ((ds.filter (·.axis = axis)).map DrawnSeries.shownName) names ∧
    label = Text.join " / ".toList names

section
variable {ds : List DrawnSeries} {axis : Side} (hds : ∀ d ∈ ds, d.key ≠ [])
include hds

/-- No name is left out of a label. -/
theorem inferredLabel?_eq : inferredLabel? ds axis =
    if ds.filter (·.axis = axis) = [] then none
    else some (Text.join " / ".toList
      ((ds.filter (·.axis = axis)).map DrawnSeries.shownName).eraseDups) := by
  have hall : ((ds.filter (·.axis = axis)).map DrawnSeries.shownName).filter (!·.isEmpty) =
      (ds.filter (·.axis = axis)).map DrawnSeries.shownName := by
    rw [List.filter_eq_self, List.forall_mem_map]
    intro d hd
    simpa using shownName_ne_nil (hds d (List.mem_of_mem_filter hd))
  rw [inferredLabel?, hall]
  cases ds.filter (·.axis = axis) with
  | nil => rfl
  | cons d rest => simp [List.eraseDups_cons]

theorem inferredLabel?_eq_none_iff : inferredLabel? ds axis = none ↔ ∀ d ∈ ds, d.axis ≠ axis := by
  rw [inferredLabel?_eq hds]
  split
  · next hnone => simpa [List.filter_eq_nil_iff] using hnone
  · next hsome => simpa [List.filter_eq_nil_iff] using hsome

theorem exists_inferredLabel? (h : ∃ d ∈ ds, d.axis = axis) :
    ∃ label, inferredLabel? ds axis = some label := by
  obtain ⟨d, hd, haxis⟩ := h
  exact Option.ne_none_iff_exists'.1 fun hnone =>
    (inferredLabel?_eq_none_iff hds).1 hnone d hd haxis

theorem namesAxis_of_inferredLabel? {label : Text} (h : inferredLabel? ds axis = some label) :
    NamesAxis ds axis label := by
  rw [inferredLabel?_eq hds] at h
  split at h
  · cases h
  · cases h
    exact ⟨_, atFirstPlaces_eraseDups _, rfl⟩

end

/-! ## Layouts -/

/-- The layout `l` shows what the description `c` asks for. -/
structure Description.Shows (c : Description) (l : Layout) : Prop where
  palette_ne_nil : c.palette ≠ []
  series : ∃ base, c.AsksFor base ∧ List.Forall₂ (fun si d => c.Draws si.2 si.1 d)
    (base.filter Series.hasKey).zipIdx l.series
  ownLeftLabel : ∀ label, c.yAxisLabel = some label → l.leftAxisLabel = label
  leftLabel : c.yAxisLabel = none → (∃ d ∈ l.series, d.axis = .left) →
    NamesAxis l.series .left l.leftAxisLabel
  emptyLeftLabel : c.yAxisLabel = none → (∀ d ∈ l.series, d.axis ≠ .left) →
    l.leftAxisLabel = "Value".toList
  rightLabel_isSome : l.rightAxisLabel.isSome ↔ ∃ d ∈ l.series, d.axis = .right
  rightLabel : ∀ label, l.rightAxisLabel = some label →
    c.yAxisRightLabel = some label ∨ c.yAxisRightLabel = none ∧ NamesAxis l.series .right label
  /-- The reference lines are those with a place. -/
  referenceLines : List.Forall₂ (fun r d => d.x = r.x ∧ d.y = r.y ∧ d.label = r.label)
    ((c.referenceLines.getD []).filter fun r => r.x.isSome || r.y.isSome) l.referenceLines

theorem layout_leftAxisLabel (c : Description) : c.layout.leftAxisLabel =
    (c.yAxisLabel <|> inferredLabel? c.drawnSeries .left).getD "Value".toList := rfl

theorem layout_rightAxisLabel (c : Description) : c.layout.rightAxisLabel =
    if ∃ d ∈ c.drawnSeries, d.axis = .right then
      c.yAxisRightLabel <|> inferredLabel? c.drawnSeries .right
    else none := by
  have hlabel : c.layout.rightAxisLabel = if c.drawnSeries.any (·.axis = .right) then
      c.yAxisRightLabel <|> inferredLabel? c.drawnSeries .right else none := rfl
  simpa using hlabel

/-- **A layout shows what its description asks for.** -/
theorem layout_shows (c : Description) : c.layout.series = c.drawnSeries ∧ c.Shows c.layout := by
  have hkeys := key_ne_nil_of_mem_drawnSeries c
  have hseries : c.layout.series = c.drawnSeries := rfl
  refine ⟨hseries, ?_⟩
  constructor
  case palette_ne_nil => exact palette_ne_nil c
  case series => exact ⟨c.baseSeries, asksFor_baseSeries c, forall₂_drawnSeries c⟩
  case ownLeftLabel =>
    intro label hlabel
    simp [layout_leftAxisLabel, hlabel]
  case leftLabel =>
    rintro hnone ⟨d, hd, haxis⟩
    obtain ⟨label, hlabel⟩ := exists_inferredLabel? hkeys ⟨d, hd, haxis⟩
    have hleft : c.layout.leftAxisLabel = label := by simp [layout_leftAxisLabel, hnone, hlabel]
    rw [hleft]
    exact namesAxis_of_inferredLabel? hkeys hlabel
  case emptyLeftLabel =>
    intro hnone hempty
    have hlabel := (inferredLabel?_eq_none_iff hkeys).2 hempty
    simp [layout_leftAxisLabel, hnone, hlabel]
  case rightLabel_isSome =>
    rw [hseries]
    constructor
    · intro hsome
      by_contra hunused
      rw [layout_rightAxisLabel, if_neg hunused] at hsome
      cases hsome
    · intro hused
      rw [layout_rightAxisLabel, if_pos hused]
      cases c.yAxisRightLabel with
      | some label => rfl
      | none =>
        obtain ⟨label, hlabel⟩ := exists_inferredLabel? hkeys hused
        simp [hlabel]
  case rightLabel =>
    intro label hlabel
    rw [layout_rightAxisLabel] at hlabel
    split at hlabel
    · cases hown : c.yAxisRightLabel with
      | some own => exact .inl (by simpa [hown] using hlabel)
      | none => exact .inr ⟨rfl, namesAxis_of_inferredLabel? hkeys (by simpa [hown] using hlabel)⟩
    · cases hlabel
  case referenceLines =>
    exact List.forall₂_map_right_iff.2 (List.forall₂_same.2 fun _ _ => ⟨rfl, rfl, rfl⟩)

end MarkdownPrep.Chart
