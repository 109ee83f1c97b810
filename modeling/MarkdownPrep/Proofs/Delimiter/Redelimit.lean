import MarkdownPrep.Delimiter
import MarkdownPrep.Proofs.Prepare.Retouch
import MarkdownPrep.Proofs.Verbatim.Frame

/-!
# Changing delimiters

Where a pass finds what stands between two delimiters, it cuts the layer into cells that hold the
delimiters and a layer of its own (`exists_delimited_cells`), since delimiters consist of signs. It
may write what it found between two others (`Cell.write`, `redelimit`), which retouches the layer
(`retouched_write_redelimit`). A stretch that no delimiter overlaps stands at the same place before
and after that, whether it stands in what was found or not (`Cell.exists_write`).
-/

namespace MarkdownPrep.Stash

section
variable {S : Char} (hS : isPrivateUse S)
include hS

theorem not_isSign_of_isPrivateUse : ¬ isSign S :=
  fun h => not_isMark_of_isSign hS h (.inl rfl)

theorem not_mem_of_allSigns {s : Text} (h : AllSigns s) : S ∉ s :=
  fun hm => not_isSign_of_isPrivateUse hS (h S hm)

/-! ## What delimiters hold -/

/-- A stretch in delimiters that are signs stands between atoms. -/
theorem between_of_signs {s body u first last : Text} (hf : IsDelimiter first)
    (hl : IsDelimiter last) : Between S s (first ++ body ++ last) u := by
  refine ⟨.inr fun c hc => ?_, .inl (.inl fun c hc => ?_)⟩
  · obtain ⟨d, first, rfl⟩ := List.exists_cons_of_ne_nil hf.1
    exact Option.some.inj hc ▸ not_isMark_of_isSign hS (hf.2 d List.mem_cons_self)
  · rw [List.getLast?_append_of_ne_nil _ hl.1] at hc
    exact not_isMark_of_isSign hS (hl.2 c (List.mem_of_getLast? hc))

/-- What stands between the delimiters is a layer of its own. -/
theorem exists_inner_layer {as : Layer} {body first last : Text} (hf : IsDelimiter first)
    (hl : IsDelimiter last) (h : spell S as = first ++ (body ++ last)) :
    ∃ bs, as = plain first ++ (bs ++ plain last) ∧ spell S bs = body := by
  obtain ⟨as', rfl, has⟩ := exists_plain_of_spell h (not_mem_of_allSigns hS hf.2)
  have hseam : Seam S body last := by
    refine .inr fun c hc => not_isMark_of_isSign hS (hl.2 c ?_)
    obtain ⟨w, rfl⟩ := List.head?_eq_some_iff.1 hc
    exact List.mem_cons_self
  obtain ⟨bs, cs, rfl, rfl, hcs⟩ := exists_split_of_spell has hseam
  obtain ⟨cs', rfl, hnil⟩ := exists_plain_of_spell (t := []) (by rw [hcs, List.append_nil])
    (not_mem_of_allSigns hS hl.2)
  obtain rfl := spell_eq_nil_iff.1 hnil
  exact ⟨bs, by rw [List.append_nil], rfl⟩

/-- A stretch in delimiters is one of the layer, and so is what stands between them. -/
theorem exists_layer_of_delimited {as : Layer} {x body y first last : Text}
    (hf : IsDelimiter first) (hl : IsDelimiter last)
    (h : spell S as = x ++ (first ++ body ++ last ++ y)) :
    ∃ xs bs ys, as = xs ++ (plain first ++ (bs ++ plain last) ++ ys) ∧ spell S xs = x ∧
      spell S bs = body ∧ spell S ys = y := by
  obtain ⟨hseam, hend⟩ : Between S x (first ++ body ++ last) y := between_of_signs hS hf hl
  obtain ⟨xs, ms, rfl, rfl, hms⟩ := exists_split_of_spell h hseam
  obtain ⟨ds, ys, rfl, hds, rfl⟩ : ∃ ds ys, ms = ds ++ ys ∧
      spell S ds = first ++ body ++ last ∧ spell S ys = y := by
    rcases hend with hend | hend
    · exact exists_split_of_spell hms hend
    · obtain ⟨ys, rfl, hys⟩ := exists_plain_of_spell hms hend
      exact ⟨_, ys, rfl, spell_plain _, hys⟩
  obtain ⟨bs, rfl, rfl⟩ := exists_inner_layer hS hf hl (hds.trans (List.append_assoc _ _ _))
  exact ⟨xs, bs, ys, rfl, rfl, rfl, rfl⟩

/-- **The cells of a layer in which delimited stretches are found.** -/
theorem exists_delimited_cells {first last : Text} (hf : IsDelimiter first) (hl : IsDelimiter last)
    (as : Layer) : ∃ cs, Cell.layer cs = as ∧
      Cell.pieces S cs = Text.cut (.enclosed first last) (spell S as) ∧
      ∀ m ∈ Cell.founds cs, ∃ bs, m = plain first ++ (bs ++ plain last) := by
  have hplaced := Text.placed_enclosed hf.1 last (spell S as)
  obtain ⟨cs, rfl, hcs⟩ := exists_cells (Text.source_cut (Recogniser.honest_enclosed hf.1 last) _)
    (hplaced.mono fun _ _ _ ⟨body, hbody⟩ => hbody ▸ between_of_signs hS hf hl)
  refine ⟨cs, rfl, hcs, fun m hm => ?_⟩
  rw [← hcs] at hplaced
  obtain ⟨body, hbody⟩ := Piece.forall_founds_of_placed hplaced _
    (Cell.founds_pieces ▸ List.mem_map_of_mem hm)
  rw [List.append_assoc] at hbody
  obtain ⟨bs, hbs, -⟩ := exists_inner_layer hS hf hl hbody
  exact ⟨bs, hbs⟩

end

namespace Cell

/-! ## Writing what was found -/

/-- The layer of cells with each found stretch `as` written as `g as`. -/
def write (g : Layer → Layer) (cs : List Cell) : Layer :=
  cs.flatMap fun
    | kept a => [a]
    | found as => g as

section
variable {f g : Layer → Layer} {cs ds : List Cell}

@[simp] theorem write_nil : write g [] = [] := rfl
@[simp] theorem write_kept (a : Atom) : write g (kept a :: cs) = a :: write g cs := rfl

@[simp] theorem write_found (as : Layer) : write g (found as :: cs) = g as ++ write g cs := rfl

@[simp] theorem write_append : write g (cs ++ ds) = write g cs ++ write g ds := by simp [write]

theorem write_id : write id cs = layer cs := rfl

/-- Writing in a text. -/
theorem mapFound_pieces {S : Char} {f : Text → Text}
    (h : ∀ as ∈ founds cs, f (spell S as) = spell S (g as)) :
    Piece.mapFound f (pieces S cs) = spell S (write g cs) := by
  induction cs with
  | nil => rfl
  | cons c cs ih =>
    cases c with
    | kept a =>
      rw [pieces_kept, Piece.mapFound_append, Piece.mapFound_keep, ih h]
      rfl
    | found as =>
      rw [founds_found, List.forall_mem_cons] at h
      rw [pieces_found, Piece.mapFound_found_cons, h.1, ih h.2, write_found, spell_append]

/-- Two ways to write what was found: a layer between the delimiters `a` and `a'`, and the same
layer between `b` and `b'`. -/
def Delimits (a a' b b' : Text) (f g : Layer → Layer) (cs : List Cell) : Prop :=
  ∀ as ∈ founds cs, ∃ bs, f as = plain a ++ (bs ++ plain a') ∧ g as = plain b ++ (bs ++ plain b')

theorem delimits_append {a a' b b' : Text} : Delimits a a' b b' f g (cs ++ ds) ↔
    Delimits a a' b b' f g cs ∧ Delimits a a' b b' f g ds := by
  simp [Delimits, or_imp, forall_and]

theorem Delimits.of_cons {a a' b b' : Text} {c : Cell} (h : Delimits a a' b b' f g (c :: cs)) :
    Delimits a a' b b' f g cs := (delimits_append.1 (List.singleton_append ▸ h)).2

/-- Nothing that was found, written with `f`, overlaps `w` without holding it. -/
def KeepsClear (w : Layer) (f : Layer → Layer) (cs : List Cell) : Prop :=
  ∀ as ∈ founds cs, ¬ f as <:+: w ∧ ∀ y z, f as = y ++ z →
    (y ≠ [] → ¬ y <:+ w) ∧ (z ≠ [] → ¬ z <+: w)

/-! ## A stretch among cells -/

/-- What stands in a delimited stretch and does not begin in its first delimiter, nor ends in its
last, stands between the two. -/
theorem exists_inner_of_append {a b a' u w z : Layer} (h : a ++ (b ++ a') = u ++ (w ++ z))
    (hhead : ∃ c, w.head? = some c ∧ c ∉ a) (hlast : ∃ c, w.getLast? = some c ∧ c ∉ a') :
    ∃ u' z', u = a ++ u' ∧ z = z' ++ a' ∧ b = u' ++ (w ++ z') := by
  obtain ⟨u', rfl, hu⟩ : ∃ u', u = a ++ u' ∧ b ++ a' = u' ++ (w ++ z) := by
    rcases List.append_eq_append_iff.1 h with ⟨u', rfl, hu⟩ | ⟨y, rfl, hy⟩
    · exact ⟨u', rfl, hu⟩
    · cases y with
      | nil => exact ⟨[], by simp, by simpa using hy.symm⟩
      | cons d y =>
        obtain ⟨c, hc, hca⟩ := hhead
        obtain ⟨w, rfl⟩ := List.head?_eq_some_iff.1 hc
        obtain ⟨rfl, -⟩ := List.cons.inj hy
        exact absurd (by simp) hca
  rw [← List.append_assoc] at hu
  rcases List.append_eq_append_iff.1 hu with ⟨y, hy, rfl⟩ | ⟨z', rfl, rfl⟩
  · rcases y.eq_nil_or_concat with rfl | ⟨y, d, rfl⟩
    · exact ⟨u', [], rfl, rfl, by simpa using hy.symm⟩
    · obtain ⟨c, hc, hca⟩ := hlast
      obtain ⟨w, rfl⟩ := List.getLast?_eq_some_iff.1 hc
      rw [List.concat_eq_append, ← List.append_assoc, ← List.append_assoc] at hy
      obtain rfl : c = d := by simpa using (List.append_inj' hy rfl).2
      exact absurd (by simp) hca
  · exact ⟨u', z', rfl, rfl, by simp⟩

theorem infix_of_infix_delimited {a a' s : Text} {bs : Layer}
    (h : plain s <:+: plain a ++ (bs ++ plain a')) (hhead : ∃ c, s.head? = some c ∧ c ∉ a)
    (hlast : ∃ c, s.getLast? = some c ∧ c ∉ a') : plain s <:+: bs := by
  obtain ⟨u, z, huz⟩ := h
  obtain ⟨c, hc, hca⟩ := hhead
  obtain ⟨d, hd, hda⟩ := hlast
  obtain ⟨u', z', -, -, rfl⟩ := exists_inner_of_append (huz.symm.trans (List.append_assoc _ _ _))
    ⟨.char c, by simp [plain, hc], by simpa [plain] using hca⟩
    ⟨.char d, by simp [plain, hd], by simpa [plain] using hda⟩
  exact ⟨u', z', List.append_assoc _ _ _⟩

section
variable {a a' b b' : Text} {w : Layer} (hsigns : ∀ s ∈ [a, a', b, b'], AllSigns s)
include hsigns

/-- Delimiters are not part of the rest. -/
theorem rest_plain_of_signs {s : Text} (hs : s ∈ [a, a', b, b']) : rest (plain s) = [] := by
  rw [rest_plain, (hsigns s hs).rest_eq_nil]
  rfl

theorem rest_write (h : Delimits a a' b b' f g cs) : rest (write g cs) = rest (write f cs) := by
  induction cs with
  | nil => rfl
  | cons c cs ih =>
    cases c with
    | kept d =>
      rw [write_kept, write_kept, ← List.singleton_append, rest_append, ih h, ← rest_append]
      rfl
    | found as =>
      obtain ⟨bs, hf, hg⟩ := h as List.mem_cons_self
      have hnil := fun s => rest_plain_of_signs hsigns (s := s)
      rw [write_found, write_found, hf, hg]
      simp only [rest_append, hnil a (by simp), hnil a' (by simp), hnil b (by simp),
        hnil b' (by simp), ih fun as has => h as (List.mem_cons_of_mem _ has)]

/-- What is left of the stretch stands at the front. -/
theorem exists_write_of_suffix (h : Delimits a a' b b' f g cs) (hclear : KeepsClear w f cs)
    {w' v : Layer} (hw : w' <:+ w) (hcs : write f cs = w' ++ v) :
    ∃ q, write g cs = w' ++ q ∧ rest q = rest v := by
  induction cs generalizing w' with
  | nil =>
    obtain ⟨rfl, rfl⟩ := List.append_eq_nil_iff.1 hcs.symm
    exact ⟨[], rfl, rfl⟩
  | cons c cs ih =>
    cases w' with
    | nil => exact ⟨write g (c :: cs), rfl, (rest_write hsigns h).trans (by rw [hcs]; rfl)⟩
    | cons d w' =>
      cases c with
      | kept e =>
        rw [write_kept] at hcs
        obtain ⟨rfl, htail⟩ := List.cons.inj hcs
        obtain ⟨q, hq, hrest⟩ := ih h hclear ((List.suffix_cons e w').trans hw) htail
        exact ⟨q, by rw [write_kept, hq]; rfl, hrest⟩
      | found as =>
        rw [write_found] at hcs
        obtain ⟨hnot, hends⟩ := hclear as List.mem_cons_self
        rcases List.append_eq_append_iff.1 hcs with ⟨y, hy, -⟩ | ⟨z, hz, -⟩
        · exact absurd ((hy ▸ (List.prefix_append _ _).isInfix).trans hw.isInfix) hnot
        · exact absurd hw ((hends _ _ hz).1 (by simp))

/-- **A stretch that no delimiter overlaps** stands at the same place, whichever way that was found
is written. -/
theorem exists_write (h : Delimits a a' b b' f g cs) (hclear : KeepsClear w f cs)
    (hhead : ∃ x, w.head? = some x ∧ x ∉ plain a) (hlast : ∃ x, w.getLast? = some x ∧ x ∉ plain a')
    {u v : Layer} (hcs : write f cs = u ++ (w ++ v)) :
    ∃ p q, write g cs = p ++ (w ++ q) ∧ rest p = rest u ∧ rest q = rest v := by
  induction cs generalizing u with
  | nil =>
    obtain ⟨-, hw⟩ := List.append_eq_nil_iff.1 hcs.symm
    obtain ⟨x, hx, -⟩ := hhead
    rw [(List.append_eq_nil_iff.1 hw).1] at hx
    cases hx
  | cons c cs ih =>
    cases c with
    | kept d =>
      cases u with
      | nil =>
        obtain ⟨q, hq, hrest⟩ := exists_write_of_suffix hsigns h hclear (List.suffix_refl w) hcs
        exact ⟨[], q, hq, rfl, hrest⟩
      | cons e u =>
        rw [write_kept] at hcs
        obtain ⟨rfl, htail⟩ := List.cons.inj hcs
        obtain ⟨p, q, hpq, hp, hq⟩ := ih h hclear htail
        refine ⟨d :: p, q, by rw [write_kept, hpq]; rfl, ?_, hq⟩
        rw [← List.singleton_append, rest_append, hp, ← rest_append]
        rfl
    | found as =>
      have h' : Delimits a a' b b' f g cs := fun as has => h as (List.mem_cons_of_mem _ has)
      have hclear' : KeepsClear w f cs := fun as has => hclear as (List.mem_cons_of_mem _ has)
      have hnil := fun s => rest_plain_of_signs hsigns (s := s)
      obtain ⟨bs, hf, hg⟩ := h as List.mem_cons_self
      have hone : rest (g as) = rest (f as) := by
        rw [hf, hg]
        simp only [rest_append, hnil a (by simp), hnil a' (by simp), hnil b (by simp),
          hnil b' (by simp)]
      rw [write_found] at hcs
      rcases List.append_eq_append_iff.1 hcs with ⟨u, rfl, htail⟩ | ⟨z, hz, hwv⟩
      · obtain ⟨p, q, hpq, hp, hq⟩ := ih h' hclear' htail
        exact ⟨g as ++ p, q, by rw [write_found, hpq, List.append_assoc],
          by rw [rest_append, rest_append, hone, hp], hq⟩
      rcases List.append_eq_append_iff.1 hwv with ⟨z, rfl, rfl⟩ | ⟨y, hw, hy⟩
      · -- the stretch stands in what was found, between the delimiters
        obtain ⟨u', z', rfl, rfl, rfl⟩ := exists_inner_of_append (hf.symm.trans hz) hhead hlast
        refine ⟨plain b ++ u', z' ++ (plain b' ++ write g cs), ?_, ?_, ?_⟩
        · rw [write_found, hg]
          simp
        · rw [rest_append, rest_append, hnil a (by simp), hnil b (by simp)]
        · simp only [rest_append, hnil a' (by simp), hnil b' (by simp), rest_write hsigns h',
            List.append_nil, List.nil_append]
      · cases z with
        | nil =>
          obtain rfl : w = y := hw
          obtain ⟨p, q, hpq, hp, hq⟩ := ih (u := []) h' hclear' hy
          refine ⟨g as ++ p, q, by rw [write_found, hpq, List.append_assoc], ?_, hq⟩
          rw [rest_append, hone, hp, hz, List.append_nil]
          exact List.append_nil _
        | cons d z =>
          exact absurd ⟨y, hw.symm⟩ (((hclear as List.mem_cons_self).2 _ _ hz).2 (by simp))

end

/-- What does not hold the first two characters of the one delimiter, nor the last two of the
other, and does not begin or end with a part of them either, is not overlapped. -/
theorem keepsClear_of_delimits {a a' b b' : Text} {w : Layer} {c d c' d' : Char}
    (h : Delimits a a' b b' f g cs) (ha : [c, d] <+: a) (ha' : [c', d'] <:+ a')
    (hcd : ¬ plain [c, d] <:+: w) (hcd' : ¬ plain [c', d'] <:+: w)
    (hlast : w.getLast? ≠ some (.char c)) (hhead : w.head? ≠ some (.char d')) :
    KeepsClear w f cs := by
  obtain ⟨x, rfl⟩ := ha
  obtain ⟨x', rfl⟩ := ha'
  intro as has
  obtain ⟨bs, hf, -⟩ := h as has
  refine ⟨fun hw => hcd (List.IsInfix.trans
    ⟨[], plain x ++ (bs ++ plain (x' ++ [c', d'])), ?_⟩ hw),
    fun y z hyz => ⟨fun hy hw => ?_, fun hz hw => ?_⟩⟩
  · rw [hf]
    simp
  · obtain ⟨e, y, rfl⟩ := List.exists_cons_of_ne_nil hy
    obtain ⟨rfl, htail⟩ := List.cons.inj (hf.symm.trans hyz)
    cases y with
    | nil => exact hlast (by obtain ⟨v, rfl⟩ := hw; exact List.getLast?_concat)
    | cons e' y =>
      obtain ⟨rfl, -⟩ := List.cons.inj htail
      exact hcd (List.IsInfix.trans ⟨[], y, rfl⟩ hw.isInfix)
  · obtain ⟨z, e, rfl⟩ := (z.eq_nil_or_concat).resolve_left hz
    rw [List.concat_eq_append] at *
    have hend : plain ([c, d] ++ x) ++ (bs ++ plain (x' ++ [c'])) ++ [.char d'] =
        (y ++ z) ++ [e] := by
      simpa using hf.symm.trans hyz
    obtain ⟨hfront, he⟩ := List.append_inj' hend rfl
    obtain rfl : Atom.char d' = e := by simpa using he
    rcases z.eq_nil_or_concat with rfl | ⟨z, e', rfl⟩
    · exact hhead (by obtain ⟨v, rfl⟩ := hw; rfl)
    · have hend' : (plain ([c, d] ++ x) ++ (bs ++ plain x')) ++ [.char c'] = (y ++ z) ++ [e'] := by
        simpa using hfront
      obtain rfl : Atom.char c' = e' := by simpa using (List.append_inj' hend' rfl).2
      refine hcd' (List.IsInfix.trans ⟨z, [], ?_⟩ hw.isInfix)
      simp

/-- **What stands between delimiters of other characters** and holds neither the first two
characters of the one delimiter nor the last two of the other is not overlapped. -/
theorem exists_write_of_disjoint {a a' b b' first last : Text} {bs u v : Layer}
    {c d c' d' : Char} (h : Delimits a a' b b' f g cs)
    (hsigns : ∀ s ∈ [a, a', b, b'], AllSigns s) (ha : [c, d] <+: a) (ha' : [c', d'] <:+ a')
    (hfirst : first ≠ []) (hlast : last ≠ [])
    (hdisjoint : (a ++ a').all fun x => !(first ++ last).contains x)
    (hopen : ¬ plain [c, d] <:+: bs) (hclose : ¬ plain [c', d'] <:+: bs)
    (hcs : write f cs = u ++ (plain first ++ (bs ++ plain last) ++ v)) :
    ∃ p q, write g cs = p ++ (plain first ++ (bs ++ plain last) ++ q) ∧ rest p = rest u ∧
      rest q = rest v := by
  have hdisjoint : ∀ x ∈ a ++ a', x ∉ first ++ last := fun x hx => by
    simpa using List.all_eq_true.1 hdisjoint x hx
  have hmem : ∀ x ∈ [c, d, c', d'], x ∉ first ∧ x ∉ last := by
    intro x hx
    refine not_or.1 (mt List.mem_append.2 (hdisjoint x (List.mem_append.2 ?_)))
    rcases List.mem_append.1 (show x ∈ [c, d] ++ [c', d'] from hx) with hx | hx
    · exact .inl (ha.subset hx)
    · exact .inr (ha'.subset hx)
  obtain ⟨e, first, rfl⟩ := List.exists_cons_of_ne_nil hfirst
  obtain ⟨last, e', rfl⟩ := last.eq_nil_or_concat.resolve_left hlast
  rw [List.concat_eq_append] at *
  have he : e ∉ a ++ a' := fun hm => hdisjoint e hm (by simp)
  have he' : e' ∉ a ++ a' := fun hm => hdisjoint e' hm (by simp)
  have hend : (plain (e :: first) ++ (bs ++ plain (last ++ [e']))).getLast? = some (.char e') := by
    rw [plain_append, ← List.append_assoc, ← List.append_assoc]
    exact List.getLast?_concat
  have hkeeps : KeepsClear (plain (e :: first) ++ (bs ++ plain (last ++ [e']))) f cs := by
    refine keepsClear_of_delimits h ha ha' (fun hw => hopen ?_) (fun hw => hclose ?_) ?_ ?_
    · exact infix_of_infix_delimited hw ⟨c, rfl, (hmem c (by simp)).1⟩
        ⟨d, rfl, (hmem d (by simp)).2⟩
    · exact infix_of_infix_delimited hw ⟨c', rfl, (hmem c' (by simp)).1⟩
        ⟨d', rfl, (hmem d' (by simp)).2⟩
    · rw [hend]
      rintro ⟨⟩
      exact (hmem c (by simp)).2 (by simp)
    · rintro ⟨⟩
      exact (hmem d' (by simp)).1 (by simp)
  refine exists_write hsigns h hkeeps ⟨.char e, rfl, ?_⟩ ⟨.char e', hend, ?_⟩ hcs
  · simpa [plain] using fun hm => he (List.mem_append_left _ hm)
  · simpa [plain] using fun hm => he' (List.mem_append_right _ hm)

end

end Cell

/-! ## Other delimiters -/

/-- What stands between delimiters of `n` characters, written between two others. -/
def redelimit (n : Nat) (first last : Text) (as : Layer) : Layer :=
  plain first ++ ((as.take (as.length - n)).drop n ++ plain last)

theorem redelimit_append {n : Nat} {a a' : Text} (ha : a.length = n) (ha' : a'.length = n)
    (b b' : Text) (bs : Layer) : redelimit n b b' (plain a ++ (bs ++ plain a')) =
      plain b ++ (bs ++ plain b') := by
  rw [redelimit, Text.drop_take_append (by simp [plain, ha]) (by simp [plain, ha'])]

/-- **A pass that changes delimiters retouches the layer.** -/
theorem retouched_write_redelimit {n : Nat} {a a' b b' : Text} (ha : a.length = n)
    (ha' : a'.length = n) (hs : AllSigns a) (hs' : AllSigns a') (hb : AllSigns b ∧ Text.Visible b)
    (hb' : AllSigns b' ∧ Text.Visible b') (hlast : b.getLast? ≠ some '\\')
    (hlast' : b'.getLast? ≠ some '\\') {cs : List Cell}
    (h : ∀ m ∈ Cell.founds cs, ∃ bs, m = plain a ++ (bs ++ plain a')) :
    Retouched (Cell.layer cs) (Cell.write (redelimit n b b') cs) := by
  induction cs with
  | nil => exact .refl []
  | cons c cs ih =>
    cases c with
    | kept d => exact (Retouched.refl [d]).append (ih h)
    | found as =>
      obtain ⟨bs, rfl⟩ := h as List.mem_cons_self
      rw [Cell.layer_found, Cell.write_found, redelimit_append ha ha']
      exact (retouched_delimited hs hs' hb hb' hlast hlast' bs).append
        (ih fun m hm => h m (List.mem_cons_of_mem _ hm))

end MarkdownPrep.Stash
