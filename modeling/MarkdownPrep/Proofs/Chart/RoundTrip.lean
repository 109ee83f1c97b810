import MarkdownPrep.Proofs.Chart.Canonical
import MarkdownPrep.Proofs.Chart.WrittenFields

/-!
# Descriptions written as JSON

Every decoder of a part of a description gives back what the part is encoded as, field by field. So
a description that was read from a chart block in any dialect, and has whole numbers only, is read
again from its JSON (`read_write`).
-/

namespace MarkdownPrep.Chart

open Json Decoder

theorem Mark.givesBack (m : Mark) : GivesBack (named names) encode m :=
  givesBack_named (by cases m <;> rfl)

theorem Side.givesBack (a : Side) : GivesBack (named names) encode a :=
  givesBack_named (by cases a <;> rfl)

theorem LabelPlace.givesBack (p : LabelPlace) : GivesBack (named names) encode p :=
  givesBack_named (by cases p <;> rfl)

theorem NumberFormat.givesBack (f : NumberFormat) : GivesBack (named names) encode f :=
  givesBack_named (by cases f <;> rfl)

theorem Kind.givesBack (k : Kind) : GivesBack (named names) (fun k => .string (name k)) k :=
  givesBack_named (by cases k <;> rfl)

theorem givesBack_texts (ts : List Text) : GivesBack (list text) encodeTexts ts :=
  givesBack_list fun s _ => givesBack_text s

theorem Series.isLayout (s : Series) : IsLayout fieldNames s.members := by
  refine ⟨by decide, ?_⟩
  simp only [fieldNames, members, List.forall₂_cons, isMember_member, List.forall₂_nil_left_iff,
    and_self]

theorem Series.givesBack (s : Series) : GivesBack decode encode s := by
  intro hw
  refine ⟨nofun, fun d hd => ?_⟩
  obtain ⟨d', rfl, -⟩ := depth_object_le.1 hd
  refine Option.bind_eq_some_iff.2 ⟨_, s.isLayout.decode_ofMembers d', ?_⟩
  refine s.isLayout.bind_get?_given hw hd 0 rfl (fun a _ => givesBack_text a) ?_
  refine s.isLayout.bind_get?_given hw hd 1 rfl (fun a _ => givesBack_text a) ?_
  refine s.isLayout.bind_get?_given hw hd 2 rfl (fun a _ => Mark.givesBack a) ?_
  refine s.isLayout.bind_get?_given hw hd 3 rfl (fun a _ => givesBack_text a) ?_
  refine s.isLayout.bind_get?_given hw hd 4 rfl (fun a _ => Side.givesBack a) ?_
  refine s.isLayout.bind_get?_given hw hd 5 rfl (fun a _ => givesBack_text a) ?_
  refine s.isLayout.bind_get?_given hw hd 6 rfl (fun a _ => givesBack_float a) ?_
  refine s.isLayout.bind_get?_given hw hd 7 rfl (fun a _ => givesBack_bool a) ?_
  refine s.isLayout.bind_get?_given hw hd 8 rfl (fun a _ => givesBack_float a) ?_
  rfl

theorem ReferenceLine.isLayout (l : ReferenceLine) : IsLayout fieldNames l.members := by
  refine ⟨by decide, ?_⟩
  simp only [fieldNames, members, List.forall₂_cons, isMember_member, List.forall₂_nil_left_iff,
    and_self]

theorem ReferenceLine.givesBack {l : ReferenceLine} (hl : l.IsCanonical) :
    GivesBack decode encode l := by
  intro hw
  refine ⟨nofun, fun d hd => ?_⟩
  obtain ⟨d', rfl, -⟩ := depth_object_le.1 hd
  refine Option.bind_eq_some_iff.2 ⟨_, l.isLayout.decode_ofMembers d', ?_⟩
  refine l.isLayout.bind_get?_given hw hd 0 rfl
    (fun v hv => givesBack_value (hl.x v hv).1 (hl.x v hv).2) ?_
  refine l.isLayout.bind_get?_given hw hd 1 rfl
    (fun v hv => givesBack_value (hl.y v hv).1 (hl.y v hv).2) ?_
  refine l.isLayout.bind_get?_given hw hd 2 rfl (fun a _ => givesBack_text a) ?_
  refine l.isLayout.bind_get?_given hw hd 3 rfl (fun a _ => givesBack_text a) ?_
  refine l.isLayout.bind_get?_given hw hd 4 rfl (fun a _ => givesBack_text a) ?_
  refine l.isLayout.bind_get?_given hw hd 5 rfl (fun a _ => LabelPlace.givesBack a) ?_
  rfl

theorem NumberStyle.isLayout (f : NumberStyle) : IsLayout fieldNames f.members := by
  refine ⟨by decide, ?_⟩
  simp only [fieldNames, members, List.forall₂_cons, isMember_member, List.forall₂_nil_left_iff,
    and_self]

theorem NumberStyle.givesBack {f : NumberStyle} (hf : f.IsBounded) : GivesBack decode encode f := by
  intro hw
  refine ⟨nofun, fun d hd => ?_⟩
  obtain ⟨d', rfl, -⟩ := depth_object_le.1 hd
  refine Option.bind_eq_some_iff.2 ⟨_, f.isLayout.decode_ofMembers d', ?_⟩
  refine f.isLayout.bind_get?_given hw hd 0 rfl (fun a _ => NumberFormat.givesBack a) ?_
  refine f.isLayout.bind_get?_given hw hd 1 rfl (fun a _ => givesBack_text a) ?_
  refine f.isLayout.bind_get?_given hw hd 2 rfl (fun n hn => givesBack_nat32 (hf.places n hn)) ?_
  refine f.isLayout.bind_get?_given hw hd 3 rfl
    (fun n hn => givesBack_nat32 (hf.leastPlaces n hn)) ?_
  refine f.isLayout.bind_get?_given hw hd 4 rfl
    (fun n hn => givesBack_nat32 (hf.greatestPlaces n hn)) ?_
  refine f.isLayout.bind_get?_given hw hd 5 rfl (fun a _ => givesBack_text a) ?_
  refine f.isLayout.bind_get?_given hw hd 6 rfl (fun a _ => givesBack_text a) ?_
  rfl

theorem Description.isLayout (c : Description) : IsLayout fieldNames c.members := by
  refine ⟨by decide, ?_⟩
  simp only [fieldNames, members, List.forall₂_cons, isMember_member, List.forall₂_nil_left_iff,
    and_self]

theorem Description.givesBack {c : Description} (hc : c.IsCanonical) :
    GivesBack decode encode c := by
  intro hw
  refine ⟨nofun, fun d hd => ?_⟩
  obtain ⟨d', rfl, -⟩ := depth_object_le.1 hd
  refine Option.bind_eq_some_iff.2 ⟨_, c.isLayout.decode_ofMembers d', ?_⟩
  refine c.isLayout.bind_get?_given hw hd 0 rfl (fun a _ => Kind.givesBack a) ?_
  refine c.isLayout.bind_get_given hw hd 1 rfl
    (givesBack_list fun r hr => givesBack_record (hc.data r hr)) ?_
  refine c.isLayout.bind_get?_given hw hd 2 rfl (fun a _ => givesBack_text a) ?_
  refine c.isLayout.bind_get?_given hw hd 3 rfl (fun a _ => givesBack_text a) ?_
  refine c.isLayout.bind_get?_given hw hd 4 rfl (fun a _ => givesBack_text a) ?_
  refine c.isLayout.bind_get?_given hw hd 5 rfl (fun a _ => givesBack_texts a) ?_
  refine c.isLayout.bind_get?_given hw hd 6 rfl (fun a _ => givesBack_texts a) ?_
  refine c.isLayout.bind_get?_given hw hd 7 rfl (fun a _ => givesBack_texts a) ?_
  refine c.isLayout.bind_get?_given hw hd 8 rfl
    (fun ss _ => givesBack_list fun s _ => Series.givesBack s) ?_
  refine c.isLayout.bind_get?_given hw hd 9 rfl
    (fun ls hls => givesBack_list fun l hl =>
      ReferenceLine.givesBack (hc.referenceLines ls hls l hl)) ?_
  refine c.isLayout.bind_get?_given hw hd 10 rfl
    (fun f hf => NumberStyle.givesBack (hc.numbers f hf)) ?_
  refine c.isLayout.bind_get?_given hw hd 11 rfl (fun a _ => givesBack_bool a) ?_
  refine c.isLayout.bind_get?_given hw hd 12 rfl (fun a _ => givesBack_bool a) ?_
  refine c.isLayout.bind_get?_given hw hd 13 rfl (fun a _ => givesBack_bool a) ?_
  refine c.isLayout.bind_get?_given hw hd 14 rfl (fun a _ => givesBack_text a) ?_
  refine c.isLayout.bind_get?_given hw hd 15 rfl (fun a _ => givesBack_text a) ?_
  refine c.isLayout.bind_get?_given hw hd 16 rfl (fun a _ => givesBack_text a) ?_
  refine c.isLayout.bind_get?_given hw hd 17 rfl (fun a _ => givesBack_float a) ?_
  refine c.isLayout.bind_get?_given hw hd 18 rfl (fun a _ => givesBack_float a) ?_
  rfl

/-! ## Descriptions with whole numbers -/

/-- A description without any binary64 number: no length, stroke width or opacity is given, and
every number in the rows and at the reference lines is whole. -/
structure Description.IsWhole (c : Description) : Prop where
  width : c.width = none
  height : c.height = none
  series : ∀ ss ∈ c.series, ∀ s ∈ ss, s.strokeWidth = none ∧ s.opacity = none
  data : ∀ r ∈ c.data, ∀ m ∈ r, m.2.isWhole
  referenceLines : ∀ ls ∈ c.referenceLines, ∀ l ∈ ls,
    (∀ v ∈ l.x, v.isWhole) ∧ ∀ v ∈ l.y, v.isWhole

instance (c : Description) : Decidable c.IsWhole :=
  decidable_of_iff
    (c.width = none ∧ c.height = none ∧
      (∀ ss ∈ c.series, ∀ s ∈ ss, s.strokeWidth = none ∧ s.opacity = none) ∧
      (∀ r ∈ c.data, ∀ m ∈ r, m.2.isWhole) ∧
      ∀ ls ∈ c.referenceLines, ∀ l ∈ ls, (∀ v ∈ l.x, v.isWhole) ∧ ∀ v ∈ l.y, v.isWhole)
    ⟨fun ⟨hw, hh, hs, hd, hl⟩ => ⟨hw, hh, hs, hd, hl⟩,
      fun h => ⟨h.width, h.height, h.series, h.data, h.referenceLines⟩⟩

theorem isWhole_texts (ts : List Text) : (encodeTexts ts).isWhole :=
  isWhole_array.2 <| List.forall_mem_map.2 fun _ _ => rfl

theorem Series.isWhole_encode {s : Series} (hstroke : s.strokeWidth = none)
    (hopacity : s.opacity = none) : s.encode.isWhole := by
  simp only [encode, isWhole_ofMembers, members, List.forall_mem_cons, isWhole_member, hstroke,
    hopacity]
  exact ⟨fun _ _ => rfl, fun _ _ => rfl, fun _ _ => rfl, fun _ _ => rfl, fun _ _ => rfl,
    fun _ _ => rfl, nofun, fun _ _ => rfl, nofun, nofun⟩

theorem ReferenceLine.isWhole_encode {l : ReferenceLine} (hx : ∀ v ∈ l.x, v.isWhole)
    (hy : ∀ v ∈ l.y, v.isWhole) : l.encode.isWhole := by
  simp only [encode, isWhole_ofMembers, members, List.forall_mem_cons, isWhole_member]
  exact ⟨hx, hy, fun _ _ => rfl, fun _ _ => rfl, fun _ _ => rfl, fun _ _ => rfl, nofun⟩

theorem NumberStyle.isWhole_encode (f : NumberStyle) : f.encode.isWhole := by
  simp only [encode, isWhole_ofMembers, members, List.forall_mem_cons, isWhole_member]
  exact ⟨fun _ _ => rfl, fun _ _ => rfl, fun _ _ => rfl, fun _ _ => rfl, fun _ _ => rfl,
    fun _ _ => rfl, fun _ _ => rfl, nofun⟩

theorem Description.IsWhole.isWhole_encode {c : Description} (h : c.IsWhole) :
    c.encode.isWhole := by
  simp only [encode, isWhole_ofMembers, members, List.forall_mem_cons, isWhole_member, h.width,
    h.height]
  refine ⟨fun _ _ => rfl, ?_, fun _ _ => rfl, fun _ _ => rfl, fun _ _ => rfl,
    fun ts _ => isWhole_texts ts, fun ts _ => isWhole_texts ts, fun ts _ => isWhole_texts ts, ?_,
    ?_, fun f _ => f.isWhole_encode, fun _ _ => rfl, fun _ _ => rfl, fun _ _ => rfl, fun _ _ => rfl,
    fun _ _ => rfl, fun _ _ => rfl, nofun, nofun, nofun⟩
  · rintro _ ⟨⟩
    exact isWhole_array.2 <| List.forall_mem_map.2 fun r hr => isWhole_object.2 (h.data r hr)
  · exact fun ss hss => isWhole_array.2 <| List.forall_mem_map.2 fun s hs =>
      Series.isWhole_encode (h.series ss hss s hs).1 (h.series ss hss s hs).2
  · exact fun ls hls => isWhole_array.2 <| List.forall_mem_map.2 fun l hl =>
      ReferenceLine.isWhole_encode (h.referenceLines ls hls l hl).1 (h.referenceLines ls hls l hl).2

/-- **What is read from a chart block is read again from its JSON**, the keys of every row in the
same order, if all its numbers are whole and it is not too deep. -/
theorem read_write {text tag : Text} {c : Description} (h : Description.read text tag = .ok c)
    (hwhole : c.IsWhole) (hdepth : c.encode.depth ≤ maxDepth) :
    Description.read c.encode.write Tag.chartJson.name = .ok c := by
  have hw := hwhole.isWhole_encode
  have htree : Tree.read? c.encode.write = some c.encode.tree := read?_write_object hw
  have hdecode := (Description.givesBack (isCanonical_of_read h) hw).2 maxDepth hdepth
  rw [Description.read_chartJson, Json.read?, htree, Option.bind_some, hdecode]

theorem exists_read_of_decide {text tag : Text} {p q : Description → Prop} [DecidablePred p]
    (h : (match Description.read text tag with
      | .ok c => decide (p c)
      | .error _ => false) = true)
    (hpq : ∀ c, Description.read text tag = .ok c → p c → q c) :
    ∃ c, Description.read text tag = .ok c ∧ q c := by
  split at h
  · next c hread => exact ⟨c, hread, hpq c hread (of_decide_eq_true h)⟩
  · exact absurd h (by decide)

/-- The keys of a row keep their order; those of an object in a row are in order anyway. -/
theorem read_write_of_lines :
    ∃ c, Description.read
        ("type: Bar\ndata: [\x7b\"b\": 1, \"a\": \x7b\"y\": [null, \"\\\"\\u0001\"], ".toList ++
          "\"x\": -2\x7d\x7d]\ncolors: #000\nvalueFormat: percent\n".toList ++
          "referenceLines: [\x7b\"y\": 3\x7d]".toList)
        "chart".toList = .ok c ∧
      c.encode.write =
        ("\x7b\"type\":\"bar\",\"data\":[\x7b\"b\":1,\"a\":\x7b\"x\":-2,".toList ++
          "\"y\":[null,\"\\\"\\u0001\"]\x7d\x7d],\"colors\":[\"#000\"],".toList ++
          "\"referenceLines\":[\x7b\"y\":3\x7d],\"formatter\":\x7b\"format\":\"percent\"\x7d\x7d".toList) ∧
      Description.read c.encode.write "chart-json".toList = .ok c :=
  exists_read_of_decide
    (p := fun c => c.IsWhole ∧ c.encode.depth ≤ maxDepth ∧ c.encode.write = _) (by decide +kernel)
    fun _ hread ⟨hwhole, hdepth, hwrite⟩ => ⟨hwrite, read_write hread hwhole hdepth⟩

end MarkdownPrep.Chart
