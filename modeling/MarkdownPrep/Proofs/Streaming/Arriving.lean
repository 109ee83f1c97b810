import MarkdownPrep.Proofs.Json.Braces
import MarkdownPrep.Proofs.Streaming.History

/-!
# A JSON chart that is arriving

While the text of a JSON chart arrives, it is shown to a watcher again and again, each time as far as
it has come. Such a beginning is no document as long as the first brace is not closed
(`read_of_unclosed`), and it looks unfinished as long as the braces in its strings do not make up for
the missing one (`isUnfinished_of_unclosed`). So no error is reported while the text keeps coming
(`examineAll_eq_pending`).
-/

namespace MarkdownPrep.Streaming

open Chart Json

/-- What becomes of a chart block that is shown again and again. -/
def Watcher.examineAll (w : Watcher) (tag : Text) : List Showing → List Outcome
  | [] => []
  | s :: shown =>
    (w.examine s.text tag s.time).1 :: (w.examine s.text tag s.time).2.examineAll tag shown

/-- The showing `s` after the history `h` comes before the watcher gives up waiting: the last change
up to it is not long past, and neither is the first showing. -/
structure InTime (waits : Waits) (h : List Showing) (s : Showing) : Prop where
  changed : ∀ c t, LastChange (h ++ [s]) (h.length + 1) c → timeAt (h ++ [s]) c = some t →
    s.time - t < waits.stable
  first : ∀ t, timeAt (h ++ [s]) 0 = some t → s.time - t < waits.longest

/-- A beginning of a text as far as its matching brace at the place `n`, with as many opening as
closing braces in its strings. -/
structure Beginning (t : Text) (n : Nat) (s : Text) : Prop where
  before : s <+: t
  opened : '\x7b' ∈ s
  unclosed : s.length ≤ n
  quoted : (quoted s).count '\x7b' = (quoted s).count '\x7d'

/-! ## Beginnings -/

theorem Beginning.closes_lt {t s : Text} {n : Nat} (hs : Beginning t n s) (ht : ClosesAt t n) :
    closes s < opens s := by
  have htake : t.take s.length = s := (List.prefix_iff_eq_take.1 hs.before).symm
  have hopen := ht.still_open s.length hs.unclosed
  rw [htake] at hopen
  exact hopen hs.opened

theorem isUnfinished_of_unclosed {s : Text} (hlt : closes s < opens s)
    (hquoted : (quoted s).count '\x7b' = (quoted s).count '\x7d') : isUnfinished s = true := by
  have hopen := count_bareFrom_add '\x7b' .outside s
  have hclose := count_bareFrom_add '\x7d' .outside s
  have hne : s.count '\x7b' ≠ s.count '\x7d' := by
    simp only [opens, closes, bare] at hlt
    simp only [quoted] at hquoted
    omega
  simp [isUnfinished, isBalanced, hne]

theorem read_of_unclosed {s : Text} (hlt : closes s < opens s) :
    readChart s Tag.chartJson.name = .error .malformedJson := by
  have hnone : Json.read? Description.decode s = none := by
    cases htree : Tree.read? s with
    | none => rw [Json.read?, htree]; rfl
    | some t => exact absurd (opens_eq_closes_of_read? htree) (by omega)
  rw [readChart, Description.read_chartJson, hnone]
  rfl

/-! ## Runs -/

theorem text_next (seen : Option Sighting) (text : Text) (now : Nat) :
    (Sighting.next seen text now).text = text := by
  unfold Sighting.next
  split
  · rfl
  · split
    · assumption
    · rfl

/-- A text that looks unfinished is not taken as final in time. -/
theorem watch_ne_final {w : Watcher} {h : List Showing} {s : Showing} (hr : RemembersAll h w.seen)
    (hunfinished : isUnfinished s.text = true) (htime : InTime w.waits h s) :
    (w.watch s.text s.time).1 ≠ .final := by
  have hnot : ¬ IsFinal w.waits (h ++ [s]) h.length := by
    rintro ⟨s', hs', hfin⟩
    obtain rfl : s = s' := by simpa using hs'
    rcases hfin with hfin | ⟨c, t, hc, ht, hle⟩ | ⟨t, ht, hle⟩
    · rw [hunfinished] at hfin
      cases hfin
    · have := htime.changed c t hc ht
      omega
    · have := htime.first t ht
      omega
  have hcond := mt (isFinal_iff hr).2 hnot
  rw [Watcher.watch, Sighting.verdict, text_next]
  rw [if_neg (by simpa [not_or, and_assoc] using hcond)]
  split <;> exact fun h => by cases h

/-- An error is held back from a text that is not final. -/
theorem examine_eq_pending {w : Watcher} {text tag : Text} {now : Nat} {e : Error}
    (hread : readChart text tag = .error e) (hwatch : (w.watch text now).1 ≠ .final) :
    (w.examine text tag now).1 = .pending := by
  rw [Watcher.examine]
  cases hverdict : w.watch text now with
  | mk verdict w' =>
    rw [hverdict] at hwatch
    cases verdict with
    | final => exact absurd rfl hwatch
    | waiting => simp [hread]
    | rapid => simp [hread]

theorem examineAll_of_unclosed {w : Watcher} {h shown : List Showing} (hr : RemembersAll h w.seen)
    (hunclosed : ∀ s ∈ shown, closes s.text < opens s.text ∧
      (quoted s.text).count '\x7b' = (quoted s.text).count '\x7d')
    (htime : ∀ before s after, shown = before ++ s :: after → InTime w.waits (h ++ before) s) :
    w.examineAll Tag.chartJson.name shown = List.replicate shown.length .pending := by
  induction shown generalizing w h with
  | nil => rfl
  | cons s shown ih =>
    obtain ⟨hlt, hquoted⟩ := hunclosed s List.mem_cons_self
    have hfirst : InTime w.waits h s := by simpa using htime [] s shown rfl
    have hwatch := watch_ne_final hr (isUnfinished_of_unclosed hlt hquoted) hfirst
    rw [Watcher.examineAll, examine_eq_pending (read_of_unclosed hlt) hwatch]
    refine congrArg (Outcome.pending :: ·) (ih (h := h ++ [s]) (hr.next s) ?_ ?_)
    · exact fun s' hs' => hunclosed s' (List.mem_cons_of_mem _ hs')
    · intro before s' after hshown
      rw [List.append_assoc]
      exact htime (s :: before) s' after (by rw [hshown]; rfl)

/-- The matching brace of a JSON chart that is written as an object. -/
theorem exists_closesAt_of_read {t : Text} {c : Description}
    (hread : Description.read t Tag.chartJson.name = .ok c)
    (hbrace : (Text.trimStart t).head? = some '\x7b') : ∃ n, ClosesAt t n := by
  obtain ⟨tree, htree⟩ : ∃ tree, Tree.read? t = some tree := by
    rw [Description.read_chartJson, Json.read?] at hread
    cases htree : Tree.read? t with
    | none => rw [htree] at hread; cases hread
    | some tree => exact ⟨tree, rfl⟩
  obtain ⟨rest, hrest⟩ : ∃ rest, Text.trimStart t = '\x7b' :: rest := by
    cases htrim : Text.trimStart t with
    | nil => rw [htrim] at hbrace; cases hbrace
    | cons d rest => rw [htrim] at hbrace; cases hbrace; exact ⟨rest, rfl⟩
  have hsplit : t = t.takeWhile isBlank ++ '\x7b' :: rest := by
    rw [← hrest, Text.trimStart, List.takeWhile_append_dropWhile]
  have hblank : ∀ d ∈ t.takeWhile isBlank, isBlank d :=
    List.all_eq_true.1 List.all_takeWhile
  exact exists_closesAt htree hsplit (fun h => absurd (hblank _ h) (by decide))
    (fun h => absurd (hblank _ h) (by decide))

/-- **A JSON chart shows no error while it arrives.** The first brace of the chart has a matching one,
and whatever beginnings of the text before that one a new or reset watcher is shown, in whatever
order, the chart is pending each time, provided that the watcher does not give up waiting. -/
theorem examineAll_eq_pending {t : Text} {c : Description}
    (hread : Description.read t Tag.chartJson.name = .ok c)
    (hbrace : (Text.trimStart t).head? = some '\x7b') :
    (∃ n, ClosesAt t n) ∧ ∀ n, ClosesAt t n → ∀ (w : Watcher) (shown : List Showing),
      (∀ s ∈ shown, Beginning t n s.text) →
      (∀ before s after, shown = before ++ s :: after → InTime w.waits before s) →
      w.reset.examineAll Tag.chartJson.name shown = List.replicate shown.length .pending := by
  refine ⟨exists_closesAt_of_read hread hbrace, fun n hn w shown hshown htime => ?_⟩
  refine examineAll_of_unclosed (h := []) rfl ?_ htime
  exact fun s hs => ⟨(hshown s hs).closes_lt hn, (hshown s hs).quoted⟩

/-- A chart whose title has a pair of braces with an escaped quote between. -/
def bracedChart : Text :=
  "\x7b\"title\": \"\x7b\\\"\x7d\", \"data\": [\x7b\"a\": 1\x7d]\x7d".toList

/-- The chart as far as its title, and half a second later all but its last brace. -/
def bracedShowings : List Showing := [⟨bracedChart.take 15, 0⟩, ⟨bracedChart.take 36, 500⟩]

theorem examineAll_eq_pending_of_braces :
    (Description.read bracedChart Tag.chartJson.name).isOk ∧
      (Text.trimStart bracedChart).head? = some '\x7b' ∧ ClosesAt bracedChart 36 ∧
      (∀ s ∈ bracedShowings, Beginning bracedChart 36 s.text) ∧
      ({} : Watcher).reset.examineAll Tag.chartJson.name bracedShowings = [.pending, .pending] := by
  have hok : (Description.read bracedChart Tag.chartJson.name).isOk := by decide +kernel
  have hbrace : (Text.trimStart bracedChart).head? = some '\x7b' := by decide +kernel
  have hcloses : ClosesAt bracedChart 36 := ⟨by decide +kernel, by decide +kernel, by decide +kernel⟩
  have hshown : ∀ s ∈ bracedShowings, Beginning bracedChart 36 s.text := by
    simp only [bracedShowings, List.forall_mem_cons]
    exact ⟨⟨by decide +kernel, by decide +kernel, by decide +kernel, by decide +kernel⟩,
      ⟨by decide +kernel, by decide +kernel, by decide +kernel, by decide +kernel⟩, nofun⟩
  refine ⟨hok, hbrace, hcloses, hshown, ?_⟩
  obtain ⟨c, hread⟩ : ∃ c, Description.read bracedChart Tag.chartJson.name = .ok c := by
    cases hread : Description.read bracedChart Tag.chartJson.name with
    | error e => rw [hread] at hok; cases hok
    | ok c => exact ⟨c, rfl⟩
  refine (examineAll_eq_pending hread hbrace).2 36 hcloses {} bracedShowings hshown ?_
  rintro (_ | ⟨s₁, _ | ⟨s₂, _ | ⟨s₃, before⟩⟩⟩) s after heq
  · cases heq
    exact ⟨fun c t _ _ => by simp, fun t _ => by simp⟩
  · -- the last change is this showing itself, not the first one
    cases heq
    refine ⟨fun c t hc ht => ?_, fun t _ => by simp; omega⟩
    have hlt := hc.lt
    obtain rfl : c = 1 := by
      by_contra hne
      refine hc.last 1 (by simp at hlt; omega) (by simp) ⟨by simp, .inr ?_⟩
      simp only [List.cons_append, List.nil_append, List.getElem?_cons_succ,
        List.getElem?_cons_zero, Option.map_some, Nat.sub_self]
      decide +kernel
    cases ht
    simp
  · cases heq
  · cases heq

end MarkdownPrep.Streaming
