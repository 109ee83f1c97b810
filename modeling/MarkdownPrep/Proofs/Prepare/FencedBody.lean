import MarkdownPrep.Proofs.Prepare.Course
import MarkdownPrep.Proofs.Prepare.Surroundings

/-!
# A fenced body and the text around it

What is put aside of a text with a fenced block is, but for the body and for the numbers of tokens,
the same for every body: it has a hole where the block stands (`Mask.verbatim_eq`). The passes take
one course around the hole, so filling a body in changes nothing before or after it
(`exists_settleDollars`), and the prepared text is the same around every body
(`prepare_around_fence`).

Display math is found before fenced blocks are. A body is admitted if none reaches over its ends;
without that, and without the other conditions, the text around it may change
(`not_prepare_around_fence`).
-/

namespace MarkdownPrep

open Stash

namespace Surroundings

variable {r : Surroundings} {body : Text}

/-! ## Tokens of the parts -/

theorem kind_of_mem_front {kind : Kind} {i : Nat} (h : .token kind i ∈ r.front) :
    kind = .displayMath := Cell.kind_eq_of_token_mem_hidden (layer_displayCells _) h

theorem kind_of_mem_rear {kind : Kind} {i : Nat} (h : .token kind i ∈ r.rear) :
    kind = .displayMath := Cell.kind_eq_of_token_mem_hidden (layer_displayCells _) h

theorem layer_bodyCells : Cell.layer (r.bodyCells body) = plain (r.opening ++ ['\n'] ++ body) := by
  simp [bodyCells]

theorem kind_of_mem_blockLayer {kind : Kind} {i : Nat} (h : .token kind i ∈ r.blockLayer body) :
    kind = .displayMath := by
  rcases List.mem_append.1 h with h | h
  · exact Cell.kind_eq_of_token_mem_hidden layer_bodyCells h
  · exact absurd h (token_not_mem_plain _ _ _)

/-! ## Display math given back -/

/-- The display math before and after the block. -/
def math (r : Surroundings) : Store :=
  stored .displayMath (displayCells r.before ++ displayCells r.after) []

theorem giveBackIn_front : giveBackIn (fun _ => true) r.math r.front = plain r.before :=
  giveBackIn_hidden_plain [] (displayCells r.after) rfl (layer_displayCells r.before)

theorem giveBackIn_rear : giveBackIn (fun _ => true) r.math r.rear = plain r.after := by
  have hback : giveBackIn (fun _ => true)
      (stored .displayMath (displayCells r.before ++ (displayCells r.after ++ [])) []) r.rear = _ :=
    giveBackIn_hidden_plain (displayCells r.before) [] rfl (layer_displayCells r.after)
  rwa [List.append_nil] at hback

theorem giveBackIn_blockLayer : giveBackIn (fun _ => true) (stored .displayMath (r.cells body) [])
    (r.blockLayer body) = plain (r.block body) := by
  have hback : giveBackIn (fun _ => true) (stored .displayMath (r.cells body) [])
      (Cell.hidden .displayMath r.ahead (r.bodyCells body)) = _ :=
    giveBackIn_hidden_plain (displayCells r.before) _ rfl layer_bodyCells
  rw [blockLayer, giveBackIn_append, giveBackIn_plain, hback, ← plain_append, block, Fence.fenced]
  simp

/-- The display math of a text in its cells. -/
theorem exists_found_of_mem_hidden {s : Text} {n i : Nat}
    (h : .token .displayMath i ∈ Cell.hidden .displayMath n (displayCells s)) :
    ∃ ds t es, displayCells s = ds ++ .found (plain t) :: es ∧ i = n + (Cell.founds ds).length := by
  rcases Cell.exists_found_of_token_mem_hidden h with h | ⟨ds, m, es, hsplit, rfl⟩
  · rw [layer_displayCells] at h
    exact absurd h (token_not_mem_plain _ _ _)
  · have hm : m ∈ Cell.founds (displayCells s) := by simp [hsplit]
    rw [displayCells, Cell.founds_ofPieces] at hm
    obtain ⟨t, -, rfl⟩ := List.mem_map.1 hm
    exact ⟨ds, t, es, hsplit, rfl⟩

/-- A token of the surroundings stands for the same display math whatever the body. -/
theorem giveBackIn_token (M : r.Mask) {kind : Kind} {i : Nat}
    (h : .token kind i ∈ r.front ∨ .token kind i ∈ r.rear) :
    giveBackIn (fun _ => true) (stored .displayMath (r.cells body) [])
      [.token kind (M.number body kind i)] = giveBackIn (fun _ => true) r.math [.token kind i] := by
  have htoken : ∀ (cs es : List Cell) (t : Text) (n : Nat), n = (Cell.founds cs).length →
      giveBackIn (fun _ => true) (stored .displayMath (cs ++ .found (plain t) :: es) [])
        [.token .displayMath n] = plain t := by
    rintro cs es t n rfl
    exact giveBackIn_token_found cs es rfl t
  rcases h with h | h
  · obtain rfl := kind_of_mem_front h
    obtain ⟨ds, t, es, hsplit, rfl⟩ := exists_found_of_mem_hidden h
    have hlt : 0 + (Cell.founds ds).length < r.ahead := by
      rw [ahead, hsplit]
      simp
    rw [Mask.number, if_pos hlt, math, cells, hsplit, List.append_assoc, List.append_assoc,
      List.cons_append, List.cons_append, htoken ds _ t _ (Nat.zero_add _),
      htoken ds _ t _ (Nat.zero_add _)]
  · obtain rfl := kind_of_mem_rear h
    obtain ⟨ds, t, es, hsplit, rfl⟩ := exists_found_of_mem_hidden h
    have hnot : ¬ r.ahead + (Cell.founds ds).length < r.ahead := by omega
    have hcells : r.cells body = (displayCells r.before ++ (r.bodyCells body ++
        (Cell.ofPieces (Piece.keep (r.closing ++ ['\n'])) ++ ds))) ++ .found (plain t) :: es := by
      rw [cells, hsplit]
      simp
    rw [Mask.number, if_neg hnot, math, hcells, hsplit, htoken, ← List.append_assoc, htoken]
    · simp [ahead]
    · simp [ahead]
      omega

theorem giveBackIn_renumber_math (M : r.Mask) {as : Layer}
    (h : ∀ kind i, .token kind i ∈ as → .token kind i ∈ r.front ∨ .token kind i ∈ r.rear) :
    giveBackIn (fun _ => true) (stored .displayMath (r.cells body) [])
      (renumber (M.number body) as) = giveBackIn (fun _ => true) r.math as := by
  induction as with
  | nil => rw [renumber_nil, giveBackIn_empty, giveBackIn_empty]
  | cons a as ih =>
    have ih := ih fun kind i hm => h kind i (List.mem_cons_of_mem _ hm)
    have hsplit : ∀ (es : Store) (b : Atom) (bs : Layer), giveBackIn (fun _ => true) es (b :: bs) =
        giveBackIn (fun _ => true) es [b] ++ giveBackIn (fun _ => true) es bs := fun es b bs =>
      giveBackIn_append es [b] bs
    cases a with
    | char c =>
      rw [renumber_char_cons, hsplit, ih, hsplit r.math, ← plain_nil, ← plain_cons, giveBackIn_plain,
        giveBackIn_plain]
    | token kind i =>
      rw [renumber_token_cons, hsplit, ih, hsplit r.math, giveBackIn_token M (h kind i List.mem_cons_self)]

/-! ## The body filled in -/

namespace Mask

variable (M : r.Mask)

/-- What stands for the block in what is put aside of every text. -/
def hole : Atom := .token .currency 0

/-- The layer with display math put aside, its fenced blocks found, with a hole for the block. -/
def holed : List Cell := M.fencesBefore ++ .found (plain M.newline ++ [hole]) :: M.fencesAfter

/-- What is put aside after display math, with a hole for the block. -/
def store : Store := stored .inlineCode M.code (stored .fencedCode M.holed [])

/-- What the atoms stand for when a body is filled in. -/
def fill (body : Text) : Atom → Layer :=
  Function.update (fun a => [a.renumber (M.number body)]) hole (r.blockLayer body)

theorem layer_holed : Cell.layer M.holed = r.front ++ hole :: r.rear := by
  rw [holed, ← M.layer_fencesBefore, ← M.layer_fencesAfter]
  simp

theorem kind_of_mem_layer_code {kind : Kind} {i : Nat} (h : .token kind i ∈ Cell.layer M.code) :
    kind = .fencedCode ∨ kind = .displayMath := by
  rw [M.layer_code] at h
  rcases Cell.token_mem_hidden h with h | h
  · exact .inl h
  · right
    rw [Cell.layer_append, Cell.layer_found, List.nil_append, List.mem_append] at h
    rcases h with h | h
    · have hfront : .token kind i ∈ r.front := by
        rw [← M.layer_fencesBefore]
        exact List.mem_append_left _ h
      exact kind_of_mem_front hfront
    · exact kind_of_mem_rear (M.layer_fencesAfter ▸ h)

theorem kind_of_mem_masked {kind : Kind} {i : Nat} (h : .token kind i ∈ M.masked) :
    kind ∈ verbatimKinds := by
  have hkinds : ∀ kind : Kind, kind = .inlineCode ∨ kind = .fencedCode ∨ kind = .displayMath →
      kind ∈ verbatimKinds := by
    rintro kind (rfl | rfl | rfl) <;> decide
  exact hkinds kind ((Cell.token_mem_hidden h).imp_right M.kind_of_mem_layer_code)

theorem length_stored_holed : (stored .fencedCode M.holed []).length = M.fenceCount := by
  simp [holed, fenceCount, Nat.add_comm 1, Nat.add_assoc]

/-- The masked layer with code given back. -/
theorem giveBackIn_masked :
    giveBackIn (fun _ => true) M.store M.masked = r.front ++ hole :: r.rear := by
  have hcode : ∀ i, .token .inlineCode i ∉ Cell.layer M.code := by
    intro i hi
    rcases M.kind_of_mem_layer_code hi with hk | hk <;> cases hk
  have hfenced : ∀ i, .token .fencedCode i ∉ Cell.layer M.holed := by
    intro i hi
    rw [layer_holed, List.mem_append, List.mem_cons] at hi
    rcases hi with hi | hi | hi
    · cases kind_of_mem_front hi
    · cases hi
    · cases kind_of_mem_rear hi
  have hlayer : Cell.layer M.code = Cell.hidden .fencedCode ([] : Store).length M.holed := by
    rw [M.layer_code, holed]
    simp [Cell.hidden_append, Cell.hidden]
  rw [store, masked, ← M.length_stored_holed, giveBackIn_hidden_of_not_mem rfl hcode, hlayer,
    giveBackIn_hidden_of_not_mem rfl hfenced, layer_holed, giveBackIn_nil]

theorem founds_fill {cs : List Cell} (h : hole ∉ Cell.layer cs) :
    (Cell.founds cs).map (List.flatMap (M.fill body)) =
      Cell.founds (Cell.renumber (M.number body) cs) := founds_flatMap_update h

theorem flatMap_fill {xs ys : Layer} (hxs : hole ∉ xs) (hys : hole ∉ ys) :
    (xs ++ hole :: ys).flatMap (M.fill body) =
      renumber (M.number body) xs ++ (r.blockLayer body ++ renumber (M.number body) ys) := by
  rw [List.flatMap_append, List.flatMap_cons, fill, Function.update_self,
    flatMap_update_of_not_mem hxs, flatMap_update_of_not_mem hys, ← renumber_eq_flatMap,
    ← renumber_eq_flatMap]

/-- **What is put aside of the text with a body** is what is put aside with a hole, the body filled
in. -/
theorem verbatim_eq : M.verbatim body =
    (M.store.map fun e => (e.1, e.2.flatMap (M.fill body))) ++ stored .displayMath (r.cells body) [] := by
  have hfront : hole ∉ r.front := fun h => by cases kind_of_mem_front h
  have hrear : hole ∉ r.rear := fun h => by cases kind_of_mem_rear h
  have hbefore : hole ∉ Cell.layer M.fencesBefore := fun h =>
    hfront (M.layer_fencesBefore ▸ List.mem_append_left _ h)
  have hafter : hole ∉ Cell.layer M.fencesAfter := fun h => hrear (M.layer_fencesAfter ▸ h)
  have hcode : hole ∉ Cell.layer M.code := fun h => by
    rcases M.kind_of_mem_layer_code h with h | h <;> cases h
  have hblock : (plain M.newline ++ [hole]).flatMap (M.fill body) =
      plain M.newline ++ r.blockLayer body := by
    rw [M.flatMap_fill (token_not_mem_plain _ _ _) List.not_mem_nil, renumber_plain, renumber_nil,
      List.append_nil]
  have hholed : (Cell.founds M.holed).map (List.flatMap (M.fill body)) =
      Cell.founds (M.fences (M.number body) (r.blockLayer body)) := by
    rw [holed, fences, Cell.founds_append, Cell.founds_append, Cell.founds_found, Cell.founds_found,
      List.map_append, List.map_cons, M.founds_fill hbefore, M.founds_fill hafter, hblock]
  have hfences := stored_map .fencedCode hholed [] (stored .displayMath (r.cells body) [])
  rw [List.map_nil, List.nil_append] at hfences
  rw [verbatim, hfences]
  exact stored_map .inlineCode (M.founds_fill hcode) _ _

/-- Code is put aside with numbers that come after those of display math. -/
theorem shifts_fill : ∀ e ∈ M.store,
    Shifts (M.fill body) (stored .displayMath (r.cells body) []).length e.1 := by
  have hlength : (stored .displayMath (r.cells body) []).length = r.displayCount body := by
    rw [length_stored, List.length_nil, Nat.zero_add, displayCount]
  have hshifts : ∀ kind, kind = .inlineCode ∨ kind = .fencedCode →
      Shifts (M.fill body) (r.displayCount body) kind := by
    intro kind hk
    refine (shifts_renumber fun i => ?_).update (fun i h => ?_) fun i h => ?_
    · rcases hk with rfl | rfl <;> rfl
    · rcases hk with rfl | rfl <;> cases h
    · rcases hk with rfl | rfl <;> cases kind_of_mem_blockLayer h
  intro e he
  rw [hlength]
  rw [store, mem_stored, mem_stored] at he
  rcases he with ⟨m, -, rfl⟩ | ⟨m, -, rfl⟩ | he
  · exact hshifts _ (.inl rfl)
  · exact hshifts _ (.inr rfl)
  · cases he

/-- **Giving back what is put aside of the text with a body** is giving back code with a hole,
filling the body in and giving back display math. -/
theorem giveBackIn_verbatim {as : Layer} (h : hole ∉ as) :
    giveBackIn (fun _ => true) (M.verbatim body) (renumber (M.number body) as) =
      giveBackIn (fun _ => true) (stored .displayMath (r.cells body) [])
        ((giveBackIn (fun _ => true) M.store as).flatMap (M.fill body)) := by
  rw [verbatim_eq, ← giveBackIn_of_shifts M.shifts_fill, fill, flatMap_update_of_not_mem h,
    renumber_eq_flatMap]

/-- The layer of every text, before it is given back. -/
theorem eq_of_layering (h : r.Admits body) (L : Layering (r.text body)) :
    L.masked = renumber (M.number body) M.masked ∧ L.verbatim = M.verbatim body := by
  obtain ⟨hhide, hold⟩ := M.holds_verbatim h
  have hS := not_isTokenChar_of_isPrivateUse (isPrivateUse_unusedPrivate (r.text body))
  have hn := unusedPrivate_not_mem h.fresh
  rw [L.hideVerbatim_eq] at hhide
  obtain ⟨hmasked, hstash⟩ := Prod.mk.inj hhide
  refine ⟨spell_inj hS (L.holds.sound hn) (hold.sound hn) hmasked, ?_⟩
  exact spellAll_inj hS (L.holds.sound_store hn) (hold.sound_store hn) (Stash.mk.inj hstash).2

theorem follows (h : r.Admits body) (L : Layering (r.text body)) (c : Course M.masked) :
    L.Follows c (M.number body) where
  fresh := unusedPrivate_not_mem h.fresh
  masked := (M.eq_of_layering h L).1
  amounts _ := rfl
  math kind hk i := by
    have hlength : (M.verbatim body).length =
        r.displayCount body + M.fenceCount + (Cell.founds M.code).length := by
      rw [verbatim, length_stored, length_stored, length_stored, length_founds_fences,
        Cell.founds_renumber, List.length_map, List.length_nil, Nat.zero_add, displayCount]
    have hkinds : ∀ kind ∈ mathKinds, kind = .inlineMath ∨ kind = .mathBlock := by decide
    rw [(M.eq_of_layering h L).2, hlength]
    rcases hkinds kind hk with rfl | rfl <;> rfl

end Mask

/-! ## The outcome -/

/-- **The outcome is one text before the block and one after it**, whatever the body. -/
theorem exists_settleDollars (r : Surroundings)
    (hclosed : ∀ block ∈ Fence.blocks (Verbatim.withoutDisplayMath r.before), block.closed) :
    ∃ p q, Text.Visible q ∧
      ∀ body, r.Admits body → settleDollars (r.text body) = p ++ (r.block body ++ q) := by
  obtain ⟨M⟩ := r.exists_mask hclosed
  obtain ⟨c⟩ := exists_course M.masked
  have hcourse := c.retouched_amountsBack fun kind i => M.kind_of_mem_masked
  -- the layers before and after the hole have no share in the body
  have hback := hcourse.giveBackIn (p := fun _ => true) (.refl M.store)
  rw [M.giveBackIn_masked] at hback
  obtain ⟨xs, ys, hsplit, hxs, hys⟩ := hback.exists_split
  have hbefore := hxs.giveBackIn (p := fun _ => true) (.refl r.math)
  have hafter := hys.giveBackIn (p := fun _ => true) (.refl r.math)
  rw [giveBackIn_front] at hbefore
  rw [giveBackIn_rear] at hafter
  obtain ⟨p, hp⟩ := hbefore.exists_plain
  obtain ⟨q, hq⟩ := hafter.exists_plain
  rw [hq] at hafter
  refine ⟨p, q, hafter.visible r.visible, fun body h => ?_⟩
  have hole_amounts : Mask.hole ∉ c.amountsBack := by
    intro hm
    have hkind := M.kind_of_mem_masked (hcourse.token_mem_iff.1 hm)
    exact absurd hkind (by decide)
  have hole_xs : Mask.hole ∉ xs := fun hm => by cases kind_of_mem_front (hxs.token_mem_iff.1 hm)
  have hole_ys : Mask.hole ∉ ys := fun hm => by cases kind_of_mem_rear (hys.token_mem_iff.1 hm)
  obtain ⟨L⟩ := exists_layering (r.text body)
  have hfinal : L.final = plain (p ++ (r.block body ++ q)) := by
    rw [Layering.final, (M.follows h L c).amountsBack_eq, (M.eq_of_layering h L).2,
      M.giveBackIn_verbatim hole_amounts, hsplit]
    refine (congrArg _ (M.flatMap_fill hole_xs hole_ys)).trans ?_
    rw [giveBackIn_append, giveBackIn_append, giveBackIn_blockLayer,
      giveBackIn_renumber_math M fun _ _ hm => .inl (hxs.token_mem_iff.1 hm), hp,
      giveBackIn_renumber_math M fun _ _ hm => .inr (hys.token_mem_iff.1 hm), hq, plain_append,
      plain_append]
  rw [L.settleDollars_eq (clean_plain h.clean), hfinal, spell_plain]

end Surroundings

/-- **What stands in a fenced block does not change how the text around it is prepared**, if no block
before it is left open once display math is put aside. -/
theorem prepare_around_fence (r : Surroundings)
    (hclosed : ∀ block ∈ Fence.blocks (Verbatim.withoutDisplayMath r.before), block.closed) :
    ∃ p q, ∀ body, r.Admits body → prepare (r.text body) = p ++ (r.block body ++ q) := by
  obtain ⟨p, q, hvisible, hsettle⟩ := r.exists_settleDollars hclosed
  refine ⟨p, Text.trimEnd q ++ ['\n'], fun body h => ?_⟩
  have hne : (r.text body).isEmpty = false := by
    simp [Surroundings.text, Surroundings.block, Fence.fenced]
  rw [prepare, hne, Text.unifyLineEnds_eq_self h.unified, hsettle body h, ← List.append_assoc,
    Text.trimEnd_append_of_visible _ hvisible]
  simp

namespace Surroundings

/-- The text around a block comes out the same with two bodies. -/
def Alike (r : Surroundings) (body body' : Text) : Prop :=
  ∃ p q, prepare (r.text body) = p ++ (r.block body ++ q) ∧
    prepare (r.text body') = p ++ (r.block body' ++ q)

theorem Alike.length_eq {r : Surroundings} {body body' : Text} (h : r.Alike body body') :
    (prepare (r.text body)).length + (r.block body').length =
      (prepare (r.text body')).length + (r.block body).length := by
  obtain ⟨p, q, h, h'⟩ := h
  rw [h, h']
  simp only [List.length_append]
  omega

/-- A block between backticks. -/
def ticked (before after : Text) (whole : Text.WholeLines before)
    (visible : Text.Visible after) : Surroundings where
  before := before
  opening := "```".toList
  closing := "```".toList
  after := after
  fence := ⟨'`', 3, none⟩
  whole := whole
  opens := by decide
  opening_line := by decide
  closes := by decide
  closing_line := by decide
  visible := visible

/-- A text without underscores has no body of a token. -/
theorem admits_of_not_mem {r : Surroundings} {body : Text} (h : r.IsBody body) (hparted : r.Parted body)
    (hfresh : '\uE000' ∉ r.text body) (hbar : '_' ∉ r.text body) : r.Admits body :=
  ⟨h, hparted, ⟨'\uE000', by decide, hfresh⟩, not_tokenBody_infix_of_not_mem hbar⟩

end Surroundings

theorem prepare_around_fence_of_shell :
    (∀ block ∈ Fence.blocks (Verbatim.withoutDisplayMath "It costs $5.\n".toList), block.closed) ∧
    ∃ p q,
      prepare "It costs $5.\n```\necho $$\n```\nwhere \\(x\\)".toList =
        p ++ ("```\necho $$\n```\n".toList ++ q) ∧
      prepare "It costs $5.\n```\n\\(y\\) is $6\n```\nwhere \\(x\\)".toList =
        p ++ ("```\n\\(y\\) is $6\n```\n".toList ++ q) := by
  have hclosed : ∀ block ∈ Fence.blocks (Verbatim.withoutDisplayMath "It costs $5.\n".toList),
      block.closed := by decide +kernel
  let r := Surroundings.ticked "It costs $5.\n".toList "where \\(x\\)".toList (by decide) (by decide)
  obtain ⟨p, q, h⟩ := prepare_around_fence r hclosed
  refine ⟨hclosed, p, q, ?_, ?_⟩
  · refine h "echo $$\n".toList (Surroundings.admits_of_not_mem (by decide) ?_ (by decide) (by decide))
    exact Text.parted_of_cut_eq Verbatim.honest_displayRecogniser (by decide +kernel)
  · refine h "\\(y\\) is $6\n".toList
      (Surroundings.admits_of_not_mem (by decide) ?_ (by decide) (by decide))
    exact Text.parted_of_cut_eq Verbatim.honest_displayRecogniser (by decide +kernel)

/-- Two dollars in a body are paired with two after the block; a body of a token in a block is taken
for the token; display math hides the line that closes the block before. -/
theorem not_prepare_around_fence :
    (¬ ∀ r : Surroundings, (∀ block ∈ Fence.blocks r.before, block.closed) → ∀ body body',
      r.IsBody body → r.IsBody body' → r.Alike body body') ∧
    (¬ ∀ r : Surroundings, (∀ block ∈ Fence.blocks r.before, block.closed) → ∀ body body',
      r.IsBody body → r.IsBody body' → r.Parted body → r.Parted body' → r.Alike body body') ∧
    ¬ ∀ r : Surroundings, (∀ block ∈ Fence.blocks r.before, block.closed) → ∀ body body',
      r.Admits body → r.Admits body' → r.Alike body body' := by
  have hparted : ∀ {xs}, Text.cut Verbatim.displayRecogniser xs.flatten =
      (xs.map (Text.cut Verbatim.displayRecogniser)).flatten →
      Text.Parted Verbatim.displayRecogniser xs :=
    Text.parted_of_cut_eq Verbatim.honest_displayRecogniser
  refine ⟨fun h => ?_, fun h => ?_, fun h => ?_⟩
  · let r := Surroundings.ticked [] "\\(x\\) $$".toList (by decide) (by decide)
    have halike := h r (by decide) "$$\n".toList [] (by decide) (by decide)
    exact absurd halike.length_eq (by decide +kernel)
  · let r := Surroundings.ticked [] "y".toList (by decide) (by decide)
    have halike := h r (by decide) "$$a$$__DISPLAY_MATH_1__$$b$$\n".toList [] (by decide) (by decide)
      (hparted (by decide +kernel)) (hparted (by decide +kernel))
    exact absurd halike.length_eq (by decide +kernel)
  · let r := Surroundings.ticked "```\n$$\n```\n$$\n".toList "y".toList (by decide) (by decide)
    have hadmits : ∀ body, r.IsBody body → r.Parted body → '\uE000' ∉ r.text body →
        '_' ∉ r.text body → r.Admits body := fun _ => Surroundings.admits_of_not_mem
    have halike := h r (by decide) "\\(x\\)\n".toList []
      (hadmits _ (by decide) (hparted (by decide +kernel)) (by decide) (by decide))
      (hadmits _ (by decide) (hparted (by decide +kernel)) (by decide) (by decide))
    exact absurd halike.length_eq (by decide +kernel)

end MarkdownPrep
