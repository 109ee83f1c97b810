import MarkdownPrep.Chart.Setting
import MarkdownPrep.Proofs.Json.ArrayText
import MarkdownPrep.Proofs.Json.GivesBack
import MarkdownPrep.Proofs.Json.Items

/-!
# The spellings of a list

A list of texts is read alike from a JSON array of strings, from items with commas between in
brackets and from the items with commas between alone (`readList_of_spellsList`). Items in brackets
are no JSON array of strings, as they have no double quotes, and items alone are no array, as they
have no brackets.
-/

namespace MarkdownPrep

namespace Json

variable {w : Text}

/-- A document holds the character that it starts with. -/
theorem exists_opensWith_of_read? {t : Tree} (h : Tree.read? w = some t) :
    ∃ c ∈ w, t.OpensWith c := by
  induction w with
  | nil => cases h
  | cons c w ih =>
    by_cases hspace : Reader.isSpace c
    · rw [Tree.read?, Reader.start,
        Reader.run_of_step (Reader.step_value_of_isSpace false [] hspace)] at h
      obtain ⟨d, hd, ht⟩ := ih h
      exact ⟨d, List.mem_cons_of_mem _ hd, ht⟩
    · exact ⟨c, List.mem_cons_self, opensWith_of_read? hspace h⟩

theorem isBlank_of_isSpace {c : Char} (h : Reader.isSpace c) : isBlank c := by
  simp only [Reader.isSpace, Bool.or_eq_true, decide_eq_true_eq] at h
  rcases h with ((rfl | rfl) | rfl) | rfl <;> decide

namespace Decoder

variable {d : Nat} {t : Tree} {s : Text}

theorem exists_string_of_text (h : text d t = some s) : ∃ gs, t = .string gs := by
  cases t with
  | string gs => exact ⟨gs, rfl⟩
  | null | bool | number | array | object => cases h

end Decoder

/-- What starts no array is no list of texts. -/
theorem read?_texts_of_not_mem_bracket (h : '[' ∉ w) : read? (.list .text) w = none := by
  by_contra hsome
  obtain ⟨items, hitems⟩ := Option.ne_none_iff_exists'.1 hsome
  obtain ⟨t, htree, hlist⟩ := Option.bind_eq_some_iff.1 hitems
  obtain ⟨c, hc, hopens⟩ := exists_opensWith_of_read? htree
  cases t with
  | array ts => exact h (hopens ▸ hc)
  | null | bool | number | string | object => cases hlist

/-- Without double quotes there is no list of texts but the empty one. -/
theorem read?_texts_of_not_mem_quote {inner : Text} (hquote : '"' ∉ inner)
    (hvisible : Text.Visible inner) : read? (.list .text) ('[' :: inner ++ [']']) = none := by
  by_contra hsome
  obtain ⟨items, hitems⟩ := Option.ne_none_iff_exists'.1 hsome
  obtain ⟨t, htree, hlist⟩ := Option.bind_eq_some_iff.1 hitems
  obtain ⟨ts, rfl, ⟨hspaces, -⟩ | ⟨w, ws, rfl, hws⟩⟩ := read?_array_iff.1 htree
  · obtain ⟨c, hc, hblank⟩ := hvisible
    exact hblank (isBlank_of_isSpace (hspaces c hc))
  · obtain ⟨t, ts, hw, -, rfl⟩ := List.forall₂_cons_left_iff.1 hws
    obtain ⟨s, -, hs, -, rfl⟩ := List.forall₂_cons_left_iff.1 (Decoder.list_eq_some_iff.1 hlist)
    obtain ⟨gs, rfl⟩ := Decoder.exists_string_of_text hs
    obtain ⟨c, hc, rfl⟩ := exists_opensWith_of_read? hw
    exact hquote (Text.mem_join_of_mem List.mem_cons_self hc)

/-- Texts are read from JSON strings with commas between. -/
theorem read?_texts {items ws : List Text}
    (h : List.Forall₂ (fun s w => read? .text w = some s) items ws) :
    read? (.list .text) ('[' :: Text.join [','] ws ++ [']']) = some items := by
  have htrees : ∃ ts, List.Forall₂ (fun w t => Tree.read? w = some t) ws ts ∧
      List.Forall₂ (fun t s => Decoder.text (maxDepth - 1) t = some s) ts items := by
    induction h with
    | nil => exact ⟨[], .nil, .nil⟩
    | cons hw _ ih =>
      obtain ⟨t, htree, ht⟩ := Option.bind_eq_some_iff.1 hw
      obtain ⟨ts, hws, hts⟩ := ih
      exact ⟨t :: ts, .cons htree hws, .cons ht hts⟩
  obtain ⟨ts, hws, hts⟩ := htrees
  have hinner : IsInnerText (Text.join [','] ws) ts := by
    cases hws with
    | nil => exact .inl ⟨nofun, rfl⟩
    | cons hw hws => exact .inr ⟨_, _, rfl, .cons hw hws⟩
  have htree := read?_array_iff.2 ⟨ts, rfl, hinner⟩
  rw [read?, htree]
  exact Decoder.list_eq_some_iff.2 hts

/-- A written string is a JSON string. -/
theorem read?_text_writeString (s : Text) : read? .text (writeString s) = some s := by
  have hquote : Reader.step .start '"' = some ⟨.string false [], []⟩ := rfl
  have htree : Tree.read? (writeString s) = some (.string (s.map .ofChar)) := by
    rw [writeString, Tree.read?, List.cons_append, Reader.run_of_step hquote,
      Reader.run_writeString, Reader.finishString, if_neg (by decide), List.reverse_reverse]
    rfl
  rw [read?, htree]
  exact Glyph.text?_map_ofChar s

theorem writeItems_eq_join (vs : List Value) :
    writeItems vs = Text.join [','] (vs.map Value.write) := by
  induction vs with
  | nil => rfl
  | cons v vs ih =>
    cases vs with
    | nil => simp [writeItems, Text.join]
    | cons v' vs =>
      rw [writeItems, ih]
      · simp only [List.map_cons, Text.join_cons_cons, List.append_assoc, List.singleton_append]
      · exact List.cons_ne_nil _ _

end Json

namespace Chart

open Json

/-! ## Quotes and brackets -/

theorem unquote_eq_self {s : Text} (h : ∀ c ∈ s, c ≠ '"' ∧ c ≠ '\'') : unquote s = s := by
  have hquote : ∀ c ∈ s, (decide (c = '"') || decide (c = '\'')) = false := by simpa using h
  have hlast : (s.getLast?.any fun c => c = '"' || c = '\'') = false := by
    cases hs : s.getLast? with
    | none => rfl
    | some c => exact hquote c (List.mem_of_getLast? hs)
  cases s with
  | nil => rfl
  | cons c s =>
    simp only [unquote, hquote c List.mem_cons_self, hlast, if_false, Bool.false_eq_true]

theorem unquote_quoted (s : Text) : unquote ('\'' :: s ++ ['\'']) = s := by
  simp [unquote]

theorem stripBrackets_of_not_mem {s : Text} (h : '[' ∉ s) : stripBrackets s = s := by
  cases s with
  | nil => rfl
  | cons c s =>
    have hc : c ≠ '[' := fun hc => h (hc ▸ List.mem_cons_self)
    unfold stripBrackets
    split
    · next heq => exact absurd (List.cons.inj heq).1 hc
    · rfl

theorem stripBrackets_brackets (s : Text) : stripBrackets ('[' :: s ++ [']']) = s := by
  rw [List.cons_append, stripBrackets, List.getLast?_concat, if_pos rfl, List.dropLast_concat]

/-! ## Spellings -/

/-- The text `w` is `s` with white space around it. -/
def Padded (s w : Text) : Prop :=
  ∃ front back, (∀ c ∈ front, isBlank c) ∧ (∀ c ∈ back, isBlank c) ∧ w = front ++ s ++ back

/-- A text that can be an item of a list without marks around it: it is not empty, has no white
space at its ends, and holds no comma, quote or square bracket. -/
structure IsListItem (s : Text) : Prop where
  ne_nil : s ≠ []
  trimmed : Text.trim s = s
  plain : ∀ c ∈ s, c ∉ [',', '"', '\'', '[', ']']

instance (s : Text) : Decidable (IsListItem s) :=
  decidable_of_iff (s ≠ [] ∧ Text.trim s = s ∧ s.all (· ∉ [',', '"', '\'', '[', ']']))
    ⟨fun ⟨hne, htrim, hplain⟩ => ⟨hne, htrim, by simpa using hplain⟩,
      fun h => ⟨h.ne_nil, h.trimmed, by simpa using h.plain⟩⟩

/-- The text `w` is the item `s`, in single quotes or not, with white space around it. -/
def SpellsItem (s w : Text) : Prop := Padded s w ∨ Padded ('\'' :: s ++ ['\'']) w

/-- The text `w` is a JSON string for `s`. -/
def IsJsonString (s w : Text) : Prop := Json.read? .text w = some s

/-- The ways to write a list. -/
inductive SpellsList (items : List Text) : Text → Prop where
  /-- A JSON array of any strings for the items. -/
  | json {ws : List Text} : List.Forall₂ IsJsonString items ws →
    SpellsList items ('[' :: Text.join [','] ws ++ [']'])
  /-- The array of the items as it is written. -/
  | written : SpellsList items (Value.array (items.map .string)).write
  | bracketed {ws : List Text} : List.Forall₂ SpellsItem items ws →
    SpellsList items ('[' :: Text.join [','] ws ++ [']'])
  | bare {ws : List Text} : List.Forall₂ SpellsItem items ws →
    SpellsList items (Text.join [','] ws)

variable {s w v : Text} {items ws : List Text}

theorem Padded.trim_eq (h : Padded s w) : Text.trim w = Text.trim s := by
  obtain ⟨front, back, hfront, hback, rfl⟩ := h
  rw [Text.trim_append_blank _ hback, Text.trim_blank_append hfront]

/-- A text between visible characters is trimmed. -/
theorem trim_enclosed {c d : Char} (hc : isBlank c = false) (hd : isBlank d = false) (s : Text) :
    Text.trim (c :: s ++ [d]) = c :: s ++ [d] := by
  have hstart : Text.trimStart (c :: s ++ [d]) = c :: s ++ [d] :=
    List.dropWhile_cons_of_neg (by simp [hc])
  have hend : Text.trimEnd [d] = [d] := by simp [Text.trimEnd, hd]
  have hvisible : Text.Visible [d] := ⟨d, List.mem_cons_self, by simp [hd]⟩
  rw [Text.trim, hstart, Text.trimEnd_append_of_visible _ hvisible, hend]

theorem SpellsItem.trim_cases (h : SpellsItem s w) (hs : IsListItem s) :
    Text.trim w = s ∨ Text.trim w = '\'' :: s ++ ['\''] := by
  rcases h with hbare | hquoted
  · exact .inl (hbare.trim_eq.trans hs.trimmed)
  · exact .inr (hquoted.trim_eq.trans (trim_enclosed (by decide) (by decide) s))

/-- Single quotes and white space are all that a spelling adds. -/
theorem SpellsItem.not_mem {c : Char} (h : SpellsItem s w) (hs : IsListItem s)
    (hc : c ∈ [',', '"', '[', ']']) : c ∉ w := by
  have hmark : c ∈ [',', '"', '\'', '[', ']'] ∧ c ≠ '\'' ∧ isBlank c = false := by
    simp only [List.mem_cons, List.not_mem_nil, or_false] at hc
    rcases hc with rfl | rfl | rfl | rfl <;> decide
  obtain ⟨hplain, hquote, hblank⟩ := hmark
  have hitem : c ∉ s := fun hmem => hs.plain c hmem hplain
  intro hw
  have hmem := Text.mem_trim hw hblank
  rcases h.trim_cases hs with hbare | hquoted
  · exact hitem (hbare ▸ hmem)
  · rw [hquoted] at hmem
    simp [hitem, hquote] at hmem

theorem SpellsItem.unquote_trim (h : SpellsItem s w) (hs : IsListItem s) :
    unquote (Text.trim w) = s := by
  rcases h.trim_cases hs with hbare | hquoted
  · rw [hbare, unquote_eq_self]
    intro c hc
    have hplain := hs.plain c hc
    simp only [List.mem_cons, not_or] at hplain
    exact ⟨hplain.2.1, hplain.2.2.1⟩
  · rw [hquoted, unquote_quoted]

theorem SpellsItem.visible (h : SpellsItem s w) (hs : IsListItem s) : Text.Visible w := by
  by_contra hblank
  have hnil := Text.trim_of_blank (Text.not_visible_iff.1 hblank)
  rcases h.trim_cases hs with hbare | hquoted
  · exact hs.ne_nil (hbare.symm.trans hnil)
  · cases hquoted.symm.trans hnil

section
variable (hitems : ∀ s ∈ items, IsListItem s) (h : List.Forall₂ SpellsItem items ws)
include hitems h

theorem not_mem_of_mem_spellings {c : Char} (hc : c ∈ [',', '"', '[', ']']) : ∀ w ∈ ws, c ∉ w := by
  induction h with
  | nil => nofun
  | cons hw _ ih =>
    rw [List.forall_mem_cons] at hitems
    exact List.forall_mem_cons.2 ⟨hw.not_mem hitems.1 hc, ih hitems.2⟩

theorem not_mem_join_spellings {c : Char} (hc : c ∈ ['"', '[', ']']) :
    c ∉ Text.join [','] ws := by
  intro hmem
  rcases Text.mem_of_mem_join hmem with hsep | ⟨w, hw, hcw⟩
  · obtain rfl := List.mem_singleton.1 hsep
    exact absurd hc (by decide)
  · exact not_mem_of_mem_spellings hitems h (List.mem_cons_of_mem _ hc) w hw hcw

/-- Once white space and quotes are dropped, the spellings of items are the items. -/
theorem filter_map_unquote :
    ((ws.map Text.trim).map unquote).filter (!·.isEmpty) = items := by
  induction h with
  | nil => rfl
  | @cons s w items ws hw _ ih =>
    rw [List.forall_mem_cons] at hitems
    rw [List.map_cons, List.map_cons, hw.unquote_trim hitems.1,
      List.filter_cons_of_pos (by simpa using hitems.1.ne_nil), ih hitems.2]

/-- The spellings of items are read between commas. -/
theorem filter_splitOn_join :
    (((Text.splitOn ',' (Text.join [','] ws)).map Text.trim).map unquote).filter (!·.isEmpty) =
      items := by
  cases h with
  | nil => rfl
  | cons hw hws =>
    have hcomma := not_mem_of_mem_spellings hitems (.cons hw hws) (c := ',') List.mem_cons_self
    rw [Text.splitOn_join hcomma, filter_map_unquote hitems (.cons hw hws)]

end

/-! ## Lists -/

theorem readList_of_read?_eq_some (h : Json.read? (.list .text) (Text.trim v) = some items) :
    readList v = items := by
  rw [readList]
  split
  · next hempty =>
    rw [List.isEmpty_iff.1 hempty] at h
    cases h
  · simp only [h]

/-- What is no JSON list is read between commas. -/
theorem readList_of_read?_eq_none (h : Json.read? (.list .text) (Text.trim v) = none) :
    readList v = (((Text.splitOn ',' (stripBrackets (Text.trim v))).map Text.trim).map
      unquote).filter (!·.isEmpty) := by
  rw [readList]
  split
  · next hempty =>
    rw [List.isEmpty_iff.1 hempty]
    rfl
  · simp only [h, List.map_map]
    rfl

theorem Padded.trim_brackets (h : Padded ('[' :: s ++ [']']) v) :
    Text.trim v = '[' :: s ++ [']'] :=
  h.trim_eq.trans (trim_enclosed (by decide) (by decide) s)

theorem readList_json (h : List.Forall₂ IsJsonString items ws)
    (hv : Padded ('[' :: Text.join [','] ws ++ [']']) v) : readList v = items := by
  apply readList_of_read?_eq_some
  rw [hv.trim_brackets]
  exact read?_texts h

theorem readList_written (hv : Padded (Value.array (items.map .string)).write v) :
    readList v = items := by
  have hstrings : List.Forall₂ IsJsonString items (items.map writeString) := by
    rw [List.forall₂_map_right_iff, List.forall₂_same]
    exact fun s _ => read?_text_writeString s
  have hmap : (items.map Value.string).map Value.write = items.map writeString := by
    rw [List.map_map]
    rfl
  rw [Value.write, writeItems_eq_join, hmap] at hv
  exact readList_json hstrings hv

theorem readList_bracketed (hitems : ∀ s ∈ items, IsListItem s)
    (h : List.Forall₂ SpellsItem items ws) (hv : Padded ('[' :: Text.join [','] ws ++ [']']) v) :
    readList v = items := by
  by_cases hnil : items = []
  · -- only here the text is a JSON list as well
    subst hnil
    cases h
    exact readList_json .nil hv
  · have hvisible : Text.Visible (Text.join [','] ws) := by
      cases h with
      | nil => exact absurd rfl hnil
      | cons hw _ =>
        obtain ⟨c, hc, hblank⟩ := hw.visible (hitems _ List.mem_cons_self)
        exact ⟨c, Text.mem_join_of_mem List.mem_cons_self hc, hblank⟩
    have hquote := not_mem_join_spellings hitems h (c := '"') List.mem_cons_self
    have hnone := read?_texts_of_not_mem_quote hquote hvisible
    rw [readList_of_read?_eq_none (by rwa [hv.trim_brackets]), hv.trim_brackets,
      stripBrackets_brackets, filter_splitOn_join hitems h]

theorem readList_bare (hitems : ∀ s ∈ items, IsListItem s)
    (h : List.Forall₂ SpellsItem items ws) (hv : Padded (Text.join [','] ws) v) :
    readList v = items := by
  have hbracket : '[' ∉ Text.trim (Text.join [','] ws) := fun hmem =>
    not_mem_join_spellings hitems h (c := '[') (by decide) (Text.mem_of_mem_trim hmem)
  have hnone := read?_texts_of_not_mem_bracket hbracket
  rw [readList_of_read?_eq_none (by rwa [hv.trim_eq]), hv.trim_eq,
    stripBrackets_of_not_mem hbracket, Text.map_trim_splitOn_trim (by decide),
    filter_splitOn_join hitems h]

/-- **A list is read alike from all of its spellings**, white space around it aside. -/
theorem readList_of_spellsList (hitems : ∀ s ∈ items, IsListItem s) {u : Text}
    (h : SpellsList items u) (hv : Padded u v) : readList v = items := by
  cases h with
  | json hws => exact readList_json hws hv
  | written => exact readList_written hv
  | bracketed hws => exact readList_bracketed hitems hws hv
  | bare hws => exact readList_bare hitems hws hv

/-- A backslash before a letter, a control character and letters beyond ASCII. -/
def plainItems : List Text := ["a\\n b".toList, "\x01".toList, "größe μ".toList]

/-- Two of the items in single quotes. -/
def plainWords : List Text := ["'a\\n b'".toList, " \x01".toList, "\t'größe μ'".toList]

theorem readList_of_spellsList_of_plain :
    (∀ s ∈ plainItems, IsListItem s) ∧
      SpellsList plainItems ('[' :: Text.join [','] plainWords ++ [']']) ∧
      Padded ('[' :: Text.join [','] plainWords ++ [']'])
        ([' '] ++ ('[' :: Text.join [','] plainWords ++ [']']) ++ ['\n']) ∧
      readList ([' '] ++ ('[' :: Text.join [','] plainWords ++ [']']) ++ ['\n']) = plainItems := by
  have hitems : ∀ s ∈ plainItems, IsListItem s := by decide +kernel
  have hspace : ∀ c ∈ [' '], isBlank c := List.forall_mem_singleton.2 rfl
  have htab : ∀ c ∈ ['\t'], isBlank c := List.forall_mem_singleton.2 rfl
  have hnewline : ∀ c ∈ ['\n'], isBlank c := List.forall_mem_singleton.2 rfl
  have hwords : List.Forall₂ SpellsItem plainItems plainWords :=
    .cons (.inr ⟨[], [], nofun, nofun, by decide +kernel⟩) <|
      .cons (.inl ⟨[' '], [], hspace, nofun, by decide +kernel⟩) <|
        .cons (.inr ⟨['\t'], [], htab, nofun, by decide +kernel⟩) .nil
  have hpadded : Padded ('[' :: Text.join [','] plainWords ++ [']'])
      ([' '] ++ ('[' :: Text.join [','] plainWords ++ [']']) ++ ['\n']) :=
    ⟨[' '], ['\n'], hspace, hnewline, rfl⟩
  exact ⟨hitems, .bracketed hwords, hpadded,
    readList_of_spellsList hitems (.bracketed hwords) hpadded⟩

end Chart

end MarkdownPrep
