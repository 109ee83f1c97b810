import MarkdownPrep.Fence.Block
import MarkdownPrep.Offsets.Fence
import MarkdownPrep.Proofs.Fence.Line
import MarkdownPrep.Proofs.Offsets.Extent
import MarkdownPrep.Proofs.Stash.Cells

/-!
# Fenced blocks by offset

The line reader that goes by bytes sees the same fences, so the lines of a text give the same blocks
(`blocks?_eq`), and with them the same stretches are put aside (`hideBlocks?_eq`). For these the
newline before a block matters: a block that a line stands before is preceded by one, as only the
last line of a text can be without.
-/

namespace MarkdownPrep.Offsets

open Text Fence

/-! ## Lines -/

theorem unindent?_eq (line : Text) : unindent? line = some (unindent line) := by
  have hcount : ((line.bytes.take 3).takeWhile (· = ' '.toUInt8)).length =
      min 3 (line.takeWhile (· = ' ')).length := by
    rw [← List.take_takeWhile, List.length_take, length_takeWhile_bytes (p := (· = ' '))]
    · intro c hc
      rw [of_decide_eq_true hc]
      decide
    · intro c b hb
      exact decide_eq_decide.2 (eq_toUInt8_iff (by decide) hb)
  obtain ⟨k, hk⟩ : ∃ k, k = min 3 (line.takeWhile (· = ' ')).length := ⟨_, rfl⟩
  have hsize : utf8Size (line.take k) = k := by
    rw [take_eq_replicate (hk ▸ Nat.min_le_right _ _), utf8Size_of_ascii, List.length_replicate]
    intro c hc
    rw [List.eq_of_mem_replicate hc]
    decide
  have hat : At line k (line.drop k) := ⟨line.take k, (List.take_append_drop k line).symm, hsize⟩
  rw [unindent?, hcount, ← hk, hat.from?, unindent, hk]

theorem opening?_eq (line : Text) : Offsets.opening? line = some (Fence.opening? line) := by
  rw [Offsets.opening?, unindent?_eq, Fence.opening?]
  cases hrest : unindent line with
  | nil => rfl
  | cons marker rest =>
    by_cases hm : marker = '`' ∨ marker = '~'
    · have hascii : ∀ c, decide (c = marker) = true → c.toNat < 128 := by
        intro c hc
        rw [of_decide_eq_true hc]
        rcases hm with rfl | rfl <;> decide
      have hat := (At.start (marker :: rest)).dropWhile hascii
      rw [Nat.zero_add] at hat
      simp only [hat.from?, Option.bind_eq_bind, Option.bind_some, drop_length_takeWhile]
      generalize ((marker :: rest).takeWhile (· = marker)).length = count
      generalize trim ((marker :: rest).dropWhile (· = marker)) = info
      by_cases hcount : count < 3
      · simp [hcount, Nat.not_le.2 hcount]
      · have hmarker : (decide (marker = '`') || decide (marker = '~')) = true := by simpa using hm
        simp only [hmarker, hcount, Nat.not_lt.1 hcount]
        cases (decide (marker = '`') && info.contains '`') <;> rfl
    · rw [not_or] at hm
      simp [hm]

theorem endsAt?_eq (o : Opening) (line : Text) : endsAt? o line = some (o.endsAt line) := by
  rw [endsAt?, unindent?_eq]
  rfl

/-! ## Blocks -/

theorem blocksFrom?_eq (lines : List Text) :
    (∀ i, blocksFrom? (i + utf8Size lines.flatten) none i lines =
      some ((Fence.blocksFrom i (segmentsFrom none lines)).map fun b => Extent.ofSpan b.toSpan)) ∧
    ∀ o start t, blocksFrom? (start + utf8Size t + utf8Size lines.flatten) (some (o, start))
        (start + utf8Size t) lines =
      some ((Fence.blocksFrom start (segmentsFrom (some (o, t)) lines)).map
        fun b => Extent.ofSpan b.toSpan) := by
  induction lines with
  | nil => exact ⟨fun i => rfl, fun o start t => rfl⟩
  | cons line lines ih =>
    obtain ⟨ihnone, ihsome⟩ := ih
    refine ⟨fun i => ?_, fun o start t => ?_⟩
    · rw [blocksFrom?, opening?_eq, segmentsFrom]
      cases h : Fence.opening? (dropOneEnd '\n' line) with
      | none =>
        have hrest := ihnone (i + utf8Size line)
        simpa [Nat.add_assoc, Fence.blocksFrom] using hrest
      | some o =>
        have hrest := ihsome o i line
        simpa [Nat.add_assoc] using hrest
    · rw [blocksFrom?, endsAt?_eq, segmentsFrom]
      cases h : o.endsAt (dropOneEnd '\n' line) with
      | true =>
        have hrest := ihnone (start + utf8Size (t ++ line))
        simp [Nat.add_assoc] at hrest
        simp [Nat.add_assoc, hrest, Fence.blocksFrom, Extent.ofSpan]
      | false =>
        have hrest := ihsome o start (t ++ line)
        simpa [Nat.add_assoc, h] using hrest

/-- **The blocks of a text by offset** are its blocks. -/
theorem blocks?_eq (s : Text) :
    blocks? s = some ((Fence.blocks s).map fun b => Extent.ofSpan b.toSpan) := by
  have h := (blocksFrom?_eq (fullLines s)).1 0
  rwa [Nat.zero_add, flatten_fullLines] at h

/-! ## The pass -/

section
variable {u t v : Text} {cursor : Nat} {st : Stash}

/-- A block that nothing stands before is put aside alone. -/
theorem hideBlock?_start :
    hideBlock? (u ++ (t ++ v)) (utf8Size u) ⟨utf8Size u, utf8Size (u ++ t)⟩ st =
    some (some (utf8Size u, (st.put .fencedCode t).1, (st.put .fencedCode t).2)) := by
  simp only [hideBlock?, Nat.lt_irrefl, if_false, Option.bind_eq_bind, Option.bind_some,
    Bool.false_eq_true, slice?_append]
  rfl

/-- The newline before a block is put aside with it. -/
theorem hideBlock?_newline (h : cursor ≤ utf8Size u) :
    hideBlock? (u ++ ('\n' :: t ++ v)) cursor
      ⟨utf8Size (u ++ ['\n']), utf8Size (u ++ '\n' :: t)⟩ st =
    some (some (utf8Size u, (st.put .fencedCode ('\n' :: t)).1,
      (st.put .fencedCode ('\n' :: t)).2)) := by
  have hsize : utf8Size (u ++ ['\n']) = utf8Size u + 1 := utf8Size_concat u '\n'
  obtain ⟨b, hb, hlast⟩ := exists_byteBefore? (t := u ++ ['\n']) (by simp) (t ++ v)
  have hbyte : b = '\n'.toUInt8 := (hlast '\n' (by decide)).2 List.getLast?_concat
  have hslice := slice?_append u ('\n' :: t) v
  have hsplit : u ++ ['\n'] ++ (t ++ v) = u ++ ('\n' :: t ++ v) := List.append_assoc _ _ _
  rw [hsize, hsplit] at hb
  simp only [hideBlock?, hsize, Nat.lt_succ_of_le h, if_true, hb, hbyte, Option.map_some,
    decide_true, Option.bind_eq_bind, Option.bind_some, Nat.add_sub_cancel, hslice]
  rfl

end

/-- **Putting the blocks aside by offset**, given the segments of a text after `u ++ k`, of which
`u` is done with. Where the segments begin with a block, nothing is left to be done before it. -/
theorem rewriteFrom?_hideBlock {s : Text} (u k : Text) (segs : List Segment) (out : Text)
    (st : Stash) (hs : s = u ++ k ++ segs.flatMap Segment.text)
    (hline : ∀ line, .prose line ∈ segs.dropLast → line.getLast? = some '\n')
    (hk : ∀ t closed segs', segs = .block t closed :: segs' → k = []) :
    rewriteFrom? (hideBlock? s) s (utf8Size u) out st
        ((Fence.blocksFrom (utf8Size (u ++ k)) segs).map fun b => Extent.ofSpan b.toSpan) =
      some (out ++ k ++ (st.hide .fencedCode (piecesOf segs)).1,
        (st.hide .fencedCode (piecesOf segs)).2) := by
  fun_induction piecesOf segs generalizing u k out st with
  | case1 =>
    have hat : At s (utf8Size u) k := ⟨u, by simpa using hs, rfl⟩
    simp [Fence.blocksFrom, rewriteFrom?, hat.from?, Stash.hide]
  | case2 t closed segs ih =>
    obtain rfl := hk t closed segs rfl
    obtain rfl : s = u ++ (t ++ segs.flatMap Segment.text) := by simpa [Segment.text] using hs
    have hrest := ih (u ++ t) [] (out ++ (st.put .fencedCode t).1) (st.put .fencedCode t).2
      (by simp) (fun line hl => hline line (mem_dropLast_cons hl _)) fun _ _ _ _ => rfl
    have hbefore : slice? (utf8Size u) (utf8Size u) (u ++ (t ++ segs.flatMap Segment.text)) =
        some [] := by simpa using slice?_append u [] (t ++ segs.flatMap Segment.text)
    rw [List.append_nil, Fence.blocksFrom, List.map_cons, Extent.ofSpan, ← utf8Size_append,
      rewriteFrom?_cons hideBlock?_start hbefore]
    simpa [Stash.hide] using hrest
  | case3 line t closed segs ih =>
    obtain ⟨l, rfl⟩ := List.getLast?_eq_some_iff.1 (hline line (by simp [List.dropLast]))
    obtain rfl : s = u ++ (k ++ l) ++ ('\n' :: t ++ segs.flatMap Segment.text) := by
      simpa [Segment.text] using hs
    have hsize : utf8Size (u ++ k) + utf8Size (l ++ ['\n']) =
        utf8Size (u ++ (k ++ l) ++ ['\n']) := by
      rw [← utf8Size_append]
      simp
    have hsize' : utf8Size (u ++ (k ++ l) ++ ['\n']) + utf8Size t =
        utf8Size (u ++ (k ++ l) ++ '\n' :: t) := by
      rw [← utf8Size_append]
      simp
    have hle : utf8Size u ≤ utf8Size (u ++ (k ++ l)) := by
      rw [utf8Size_append]
      exact Nat.le_add_right _ _
    have hbefore := slice?_append u (k ++ l) ('\n' :: t ++ segs.flatMap Segment.text)
    rw [← List.append_assoc u (k ++ l)] at hbefore
    have hrest := ih (u ++ (k ++ l) ++ '\n' :: t) []
      (out ++ (k ++ l) ++ (st.put .fencedCode ('\n' :: t)).1)
      (st.put .fencedCode ('\n' :: t)).2 (by simp)
      (fun line hl => hline line (mem_dropLast_cons (mem_dropLast_cons hl _) _)) fun _ _ _ _ => rfl
    rw [Fence.blocksFrom, Fence.blocksFrom, List.map_cons, Extent.ofSpan, hsize, hsize',
      rewriteFrom?_cons (hideBlock?_newline hle) hbefore]
    simpa [Stash.hide, Stash.hide_keep_append] using hrest
  | case4 line segs hne ih =>
    have hrest := ih u (k ++ line) out st (by simpa [Segment.text] using hs)
      (fun line hl => hline line (mem_dropLast_cons hl _))
      fun t closed segs' h => absurd h (hne t closed segs')
    rw [← List.append_assoc, utf8Size_append] at hrest
    rw [Fence.blocksFrom, hrest, Stash.hide_keep_append]
    simp

/-- **Putting the fenced blocks of a text aside by offset** puts aside its fenced blocks. -/
theorem hideBlocks?_eq (s : Text) (st : Stash) :
    hideBlocks? s st = some (st.hide .fencedCode (Fence.pieces s)) := by
  have hline : ∀ line, .prose line ∈ (segments s).dropLast → line.getLast? = some '\n' :=
    getLast?_of_mem_dropLast_segmentsFrom fun _ => getLast?_of_mem_dropLast_fullLines
  have h := rewriteFrom?_hideBlock [] [] (segments s) [] st (flatMap_text_segments s).symm hline
    fun _ _ _ _ => rfl
  rw [hideBlocks?, blocks?_eq, Option.bind_eq_bind, Option.bind_some, Option.pure_def,
    rewriteFrom?_isEmpty]
  exact h

end MarkdownPrep.Offsets
