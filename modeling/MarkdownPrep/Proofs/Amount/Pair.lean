import MarkdownPrep.Proofs.Amount.Lone
import MarkdownPrep.Proofs.Amount.RoundTrip
import MarkdownPrep.Proofs.Dollar.Barrier

/-!
# What stands for two dollars

Once the amounts of a text are put aside, a dollar or the token of an amount stands for each of two
dollars around a bare amount, and what these enclose is the *middle* of the text
(`Amount.PairReading.hide_eq`). To all later passes the middle is a barrier (`barrier_middle`,
`dollarsAtEnds_middle`). Where it comes through, each dollar comes back escaped if an amount was read
at it (`restoreEscaped_middle`).
-/

namespace MarkdownPrep

open Stash

/-- A dollar, escaped or not. -/
def dollar (escaped : Bool) : Text := if escaped then ['\\', '$'] else ['$']

/-! ## What stands for the dollars -/

namespace Stash

variable {S : Char} {b : Bool} {i : Nat} {y : Text} {as : Layer}

/-- What stands for a dollar once amounts are put aside: its token if an amount is `taken` there. -/
def dollarMark (taken : Bool) (i : Nat) : Atom :=
  if taken then .token .currency i else .char '$'

/-- The first and the last character of what stands for a dollar. -/
def dollarEdge (S : Char) (taken : Bool) : Char := if taken then S else '$'

theorem dollarEdge_eq (S : Char) (b : Bool) : dollarEdge S b = '$' ∨ dollarEdge S b = S := by
  cases b
  · exact .inl rfl
  · exact .inr rfl

theorem not_isBlank_dollarEdge (hS : isPrivateUse S) (b : Bool) :
    isBlank (dollarEdge S b) = false := by
  rcases dollarEdge_eq S b with h | h <;> rw [h]
  · decide
  · exact not_isBlank_of_isPrivateUse hS

/-- But for its edges, what stands for a dollar has no dollar and no white space. -/
theorem exists_text_dollarMark (b : Bool) (i : Nat) (hS : isPrivateUse S) :
    ∃ t u, (dollarMark b i).text S = dollarEdge S b :: t ∧
      (dollarMark b i).text S = u ++ [dollarEdge S b] ∧ '$' ∉ t ++ u ∧
      (t ++ u).countP isBlank = 0 ∧ (b = false → t ++ u = []) := by
  cases b with
  | false => exact ⟨[], [], rfl, rfl, List.not_mem_nil, rfl, fun _ => rfl⟩
  | true =>
    have hne : '$' ≠ S := by
      rintro rfl
      exact absurd hS (by decide)
    have hbody : '$' ∉ tokenBody .currency i := fun hm =>
      absurd (isTokenChar_of_mem_tokenBody hm) (by decide)
    have hcount : (tokenBody .currency i).countP isBlank = 0 :=
      List.countP_eq_zero.2 fun c hc hblank => absurd (isTokenChar_of_mem_tokenBody hc)
        (not_isTokenChar_of_isEdge (by simp [isEdge, hblank]))
    have hblank := not_isBlank_of_isPrivateUse hS
    refine ⟨tokenBody .currency i ++ [S], S :: tokenBody .currency i, ?_, ?_, ?_, ?_, by simp⟩
    · simp [dollarMark, dollarEdge, Atom.text, token]
    · simp [dollarMark, dollarEdge, Atom.text, token]
    · simp [hne, hbody]
    · simp [hblank, hcount]

/-! ## Apart from underscores -/

theorem apart_plain_append (s : Text) (h : Apart as) : Apart (plain s ++ as) := by
  refine List.isChain_append.2 ⟨apart_plain s, h, ?_⟩
  rintro a ha b - ⟨kind, i, rfl⟩
  exact absurd (List.mem_of_getLast? ha) (token_not_mem_plain kind i s)

theorem apart_dollarMark_cons (h : Apart as) (hne : b → as.head? ≠ some (.char '_')) :
    Apart (dollarMark b i :: as) := by
  refine List.isChain_cons.2 ⟨?_, h⟩
  rintro c hc ⟨kind, j, htoken⟩ rfl
  cases b with
  | false => cases htoken
  | true => exact hne rfl hc

theorem head?_plain_dollarMark (h : y.head? ≠ some '_') :
    (plain y ++ dollarMark b i :: as).head? ≠ some (.char '_') := by
  cases y with
  | nil => cases b <;> simp [dollarMark]
  | cons c y => simpa using h

end Stash

/-! ## The amounts given back -/

namespace Amount

theorem founds_dollarPiece_cons (b : Bool) (t : Text) (ps : List Piece) :
    Piece.founds (dollarPiece b t :: ps) = (if b then [t] else []) ++ Piece.founds ps := by
  cases b <;> rfl

theorem hidden_dollarPiece_cons (b : Bool) (n : Nat) (t : Text) (ps : List Piece) :
    Cell.hidden .currency n (Cell.ofPieces (dollarPiece b t :: ps)) =
      dollarMark b n :: Cell.hidden .currency (n + b.toNat) (Cell.ofPieces ps) := by
  cases b <;> rfl

theorem hidden_keep_append (n : Nat) (s : Text) (ps : List Piece) :
    Cell.hidden .currency n (Cell.ofPieces (Piece.keep s ++ ps)) =
      plain s ++ Cell.hidden .currency n (Cell.ofPieces ps) := by
  induction s with
  | nil => rfl
  | cons c s ih => exact congrArg (.char c :: ·) ih

/-- What comes back for a dollar is the amount that was found there, if there was one. -/
theorem giveBackIn_dollarMark {b : Bool} {t : Text} {rs ps qs : List Piece} {n : Nat}
    (h : rs = ps ++ dollarPiece b t :: qs) (hn : (Piece.founds ps).length = n) :
    giveBackIn (fun _ => true) (stored .currency (Cell.ofPieces rs) []) [dollarMark b n] =
      plain (if b then t else ['$']) := by
  subst h hn
  cases b with
  | false => exact giveBackIn_plain _ ['$']
  | true =>
    have hback : giveBackIn (fun _ => true)
        (stored .currency (Cell.ofPieces ps ++ .found (plain t) :: Cell.ofPieces qs) [])
        [.token .currency (Cell.founds (Cell.ofPieces ps)).length] = plain t :=
      giveBackIn_token_found _ _ rfl t
    rw [Cell.founds_ofPieces, List.length_map] at hback
    rwa [Cell.ofPieces, List.map_append]

namespace PairReading

variable {S : Char} {p a q x z : Text} (R : PairReading p a q)

/-- True when an amount is read at the first dollar. -/
abbrev first (_ : PairReading p a q) : Bool := opensAmount (a ++ '$' :: q)

/-- True when an amount is read at the last dollar. -/
abbrev last (_ : PairReading p a q) : Bool := opensAmount q

/-- The pieces of the text with its amounts found, the dollars of these escaped or not. -/
def pieces (escaped : Bool) : List Piece :=
  Piece.keep R.before ++ dollarPiece R.first (R.sign ++ (dollar escaped ++ R.figure)) ::
    (Piece.keep R.between ++ dollarPiece R.last (dollar escaped ++ R.lastFigure) ::
      Piece.keep R.after)

/-- The amounts, put aside. -/
def store (escaped : Bool) : Store := stored .currency (Cell.ofPieces (R.pieces escaped)) []

/-- What is left between the text before the first amount and the text after the last one. -/
def middle : Layer :=
  [dollarMark R.first 0] ++ (plain R.between ++ [dollarMark R.last R.first.toNat])

theorem founds_pieces (escaped : Bool) : Piece.founds (R.pieces escaped) =
    (if R.first then [R.sign ++ (dollar escaped ++ R.figure)] else []) ++
      if R.last then [dollar escaped ++ R.lastFigure] else [] := by
  simp only [pieces, Piece.founds_append, Piece.founds_keep, founds_dollarPiece_cons,
    List.nil_append, List.append_nil]

theorem hidden_pieces (escaped : Bool) :
    Cell.hidden .currency 0 (Cell.ofPieces (R.pieces escaped)) =
      plain R.before ++ (R.middle ++ plain R.after) := by
  have hlast := hidden_keep_append (0 + R.first.toNat + R.last.toNat) R.after []
  rw [List.append_nil] at hlast
  rw [pieces, hidden_keep_append, hidden_dollarPiece_cons, hidden_keep_append,
    hidden_dollarPiece_cons, hlast, middle, Nat.zero_add]
  simp [Cell.ofPieces, Cell.hidden]

/-- **Putting the amounts aside** leaves the middle between the text before and after it. -/
theorem hide_eq (S : Char) : hide (p ++ '$' :: (a ++ '$' :: q)) ⟨S, []⟩ =
    (R.before ++ (spell S R.middle ++ R.after), ⟨S, spellAll S (R.store false)⟩) := by
  have hhide := hide_pieces .currency (Cell.ofPieces (R.pieces false)) [] (S := S)
  rw [Cell.pieces_ofPieces, List.length_nil, R.hidden_pieces, spell_append, spell_append,
    spell_plain, spell_plain] at hhide
  have hamounts : amounts (p ++ '$' :: (a ++ '$' :: q)) = R.pieces false := R.amounts_eq
  rw [hide, hamounts]
  exact hhide

theorem of_not_mem_left {c : Char} (h : c ∉ p) : c ∉ R.before ∧ c ∉ R.sign := by
  rwa [R.before_eq, List.mem_append, not_or] at h

theorem of_not_mem_amount {c : Char} (h : c ∉ a) : c ∉ R.figure ∧ c ∉ R.between := by
  rwa [R.between_eq, List.mem_append, not_or] at h

theorem of_not_mem_right {c : Char} (h : c ∉ q) : c ∉ R.lastFigure ∧ c ∉ R.after := by
  rwa [R.after_eq, List.mem_append, not_or] at h

/-- The amounts come back with their dollars escaped. -/
theorem giveBackIn_middle : giveBackIn (fun _ => true) (R.store true) R.middle =
    plain (R.sign ++ (dollar R.first ++ (a ++ (dollar R.last ++ R.lastFigure)))) := by
  have hfirst : giveBackIn (fun _ => true) (R.store true) [dollarMark R.first 0] =
      plain (R.sign ++ (dollar R.first ++ R.figure)) := by
    refine (giveBackIn_dollarMark rfl (congrArg List.length (Piece.founds_keep R.before))).trans ?_
    cases h : R.first with
    | true => rfl
    | false => simp [R.nil_of_first h, dollar]
  have hlast : giveBackIn (fun _ => true) (R.store true) [dollarMark R.last R.first.toNat] =
      plain (dollar R.last ++ R.lastFigure) := by
    have hpieces : R.pieces true = (Piece.keep R.before ++ dollarPiece R.first
        (R.sign ++ (dollar true ++ R.figure)) :: Piece.keep R.between) ++
          dollarPiece R.last (dollar true ++ R.lastFigure) :: Piece.keep R.after := by simp [pieces]
    rw [store, giveBackIn_dollarMark hpieces]
    · cases h : R.last with
      | true => rfl
      | false => simp [R.nil_of_last h, dollar]
    · rw [Piece.founds_append, founds_dollarPiece_cons, Piece.founds_keep, Piece.founds_keep]
      cases R.first <;> rfl
  have hbetween : ∀ u, a ++ u = R.figure ++ (R.between ++ u) := fun u =>
    (congrArg (· ++ u) R.between_eq).trans (List.append_assoc ..)
  rw [middle, giveBackIn_append, giveBackIn_append, giveBackIn_plain, hfirst, hlast, hbetween]
  simp

/-- What is put aside is the amounts. -/
theorem exists_of_mem_store {escaped : Bool} {P : Text → Prop}
    (hfirst : P (R.sign ++ (dollar escaped ++ R.figure)))
    (hlast : P (dollar escaped ++ R.lastFigure)) :
    ∀ e ∈ R.store escaped, ∃ t, e.2 = plain t ∧ P t := by
  intro e he
  rcases mem_stored.1 he with ⟨as, has, rfl⟩ | he
  · rw [Cell.founds_ofPieces, founds_pieces] at has
    obtain ⟨t, ht, rfl⟩ := List.mem_map.1 has
    refine ⟨t, rfl, ?_⟩
    rcases List.mem_append.1 ht with ht | ht <;> split at ht
    · exact List.mem_singleton.1 ht ▸ hfirst
    · cases ht
    · exact List.mem_singleton.1 ht ▸ hlast
    · cases ht
  · cases he

/-- With their dollars escaped the amounts are stored as they come back. -/
theorem escapeDollars_store (S : Char) (hp : '$' ∉ p) (ha : '$' ∉ a) (hq : '$' ∉ q) :
    (spellAll S (R.store false)).map (fun e => (e.1, escapeDollars e.2)) =
      spellAll S (R.store true) := by
  have hstore : ∀ e, spellAll S (R.store e) =
      ((Piece.founds (R.pieces e)).map fun t => (Kind.currency, t)).reverse := fun e => by
    simp [spellAll, store, stored, Function.comp_def]
  have hfirst : escapeDollars (R.sign ++ (dollar false ++ R.figure)) =
      R.sign ++ (dollar true ++ R.figure) :=
    escapeDollars_of_split (R.of_not_mem_left hp).2 (R.of_not_mem_amount ha).1
  have hlast : escapeDollars (dollar false ++ R.lastFigure) = dollar true ++ R.lastFigure :=
    escapeDollars_of_split List.not_mem_nil (R.of_not_mem_right hq).1
  rw [hstore, hstore, founds_pieces, founds_pieces, List.map_reverse]
  cases R.first <;> cases R.last <;> simp [hfirst, hlast]

theorem sound_store (hp : S ∉ p) (ha : S ∉ a) (hq : S ∉ q) (hne : S ∉ dollar true) :
    ∀ e ∈ R.store true, Sound S e.2 := by
  have hplain : ∀ e ∈ R.store true, ∃ t, e.2 = plain t ∧ S ∉ t := by
    refine R.exists_of_mem_store ?_ ?_ <;> simp only [List.mem_append, not_or]
    · exact ⟨(R.of_not_mem_left hp).2, hne, (R.of_not_mem_amount ha).1⟩
    · exact ⟨hne, (R.of_not_mem_right hq).1⟩
  intro e he
  obtain ⟨t, ht, hS⟩ := hplain e he
  rw [ht]
  exact sound_plain.2 hS

theorem sound_middle (ha : S ∉ a) (hne : S ≠ '$') : Sound S R.middle := by
  have hmark : ∀ (b : Bool) (i : Nat), Sound S [dollarMark b i] := fun b i => by
    cases b <;> simp [Sound, dollarMark, hne]
  rw [middle, sound_append, sound_append, sound_plain]
  exact ⟨hmark _ _, (R.of_not_mem_amount ha).2, hmark _ _⟩

/-- No underscore stands after a token in the middle, or right after it. -/
theorem apart_middle (ha : '_' ∉ a) (hz : R.last → z.head? ≠ some '_') :
    Apart (R.middle ++ plain z) := by
  have hlast : Apart (dollarMark R.last R.first.toNat :: plain z) := by
    refine apart_dollarMark_cons (apart_plain z) fun h hhead => hz h ?_
    rw [plain, List.head?_map, Option.map_eq_some_iff] at hhead
    obtain ⟨c, hc, hbar⟩ := hhead
    rw [hc, Atom.char.inj hbar]
  have hsplit : R.middle ++ plain z = dollarMark R.first 0 ::
      (plain R.between ++ dollarMark R.last R.first.toNat :: plain z) := by simp [middle]
  rw [hsplit]
  refine apart_dollarMark_cons (apart_plain_append _ hlast) fun _ => ?_
  exact head?_plain_dollarMark fun h => (R.of_not_mem_amount ha).2 (List.mem_of_mem_head? h)

/-- **The amounts come back escaped between other texts**, if these do not spoof a token. -/
theorem restoreEscaped_middle (hS : isPrivateUse S)
    (hfree : ∀ c, c = '$' ∨ c = S → c ∉ p ++ (a ++ q)) (hbar : '_' ∉ a) (hx : S ∉ x) (hz : S ∉ z)
    (hz' : R.last → z.head? ≠ some '_') :
    restoreEscaped ⟨S, spellAll S (R.store false)⟩ (x ++ (spell S R.middle ++ z)) =
      x ++ (R.sign ++ (dollar R.first ++ (a ++ (dollar R.last ++ (R.lastFigure ++ z))))) := by
  simp only [List.mem_append, not_or] at hfree
  obtain ⟨hp, ha, hq⟩ := hfree '$' (.inl rfl)
  obtain ⟨hSp, hSa, hSq⟩ := hfree S (.inr rfl)
  have hdollar : (dollar true).any isPrivateUse = false := by decide
  have hne : S ∉ dollar true := fun hm => List.any_eq_false.1 hdollar S hm hS
  have hsound : Sound S (plain x ++ (R.middle ++ plain z)) := by
    rw [sound_append, sound_append, sound_plain, sound_plain]
    refine ⟨hx, R.sound_middle hSa ?_, hz⟩
    rintro rfl
    exact hne (by decide)
  have hunspoofed : Unspoofed (fun _ => true) (R.store true) (plain x ++ (R.middle ++ plain z)) := by
    refine (apart_plain_append x (R.apart_middle hbar hz')).unspoofed
      (R.exists_of_mem_store ?_ ⟨'\\', rfl, by decide⟩)
    cases hsign : R.sign with
    | nil => exact ⟨'\\', rfl, by decide⟩
    | cons c sign =>
      have hminus : c = '-' := R.sign_eq c (hsign ▸ List.mem_cons_self)
      exact ⟨c, rfl, by rw [hminus]; decide⟩
  have hback := giveBack_spell (not_isTokenChar_of_isPrivateUse hS) hsound
    (R.sound_store hSp hSa hSq hne) hunspoofed
  rw [giveBackIn_append, giveBackIn_append, R.giveBackIn_middle, giveBackIn_plain, giveBackIn_plain]
    at hback
  simp only [spell_append, spell_plain, List.append_assoc] at hback
  rw [restoreEscaped, giveBack_map, R.escapeDollars_store S hp ha hq]
  exact hback

/-- Where no amount was read none comes back. -/
theorem restoreEscaped_of_not (hfirst : R.first = false) (hlast : R.last = false) (S : Char)
    (s : Text) : restoreEscaped ⟨S, spellAll S (R.store false)⟩ s = s := by
  have hnone : Piece.founds (R.pieces false) = [] := by
    rw [founds_pieces, hfirst, hlast]
    rfl
  have hstore : R.store false = [] := by
    rw [store, stored, Cell.founds_ofPieces, hnone]
    rfl
  rw [hstore]
  rfl

/-! ## The middle is a barrier -/

/-- The edges of the middle have no dollar between them, and no more white space than the bare
amount. -/
theorem exists_spell_middle (hS : isPrivateUse S) (ha : '$' ∉ a) :
    ∃ t, spell S R.middle = dollarEdge S R.first :: (t ++ [dollarEdge S R.last]) ∧ '$' ∉ t ∧
      t.countP isBlank ≤ a.countP isBlank ∧ (R.first = false → R.last = false → t = a) := by
  obtain ⟨t, t', ht, -, hdollar, hblank, hnil⟩ := exists_text_dollarMark R.first 0 hS
  obtain ⟨u', u, -, hu, hdollar', hblank', hnil'⟩ :=
    exists_text_dollarMark R.last R.first.toNat hS
  have hmark : ∀ a : Atom, spell S [a] = a.text S := fun a => by simp [spell]
  have hsuffix : R.between <:+ a := ⟨R.figure, R.between_eq.symm⟩
  have hbetween := hsuffix.sublist.countP_le (p := isBlank)
  rw [List.mem_append, not_or] at hdollar hdollar'
  rw [List.countP_append] at hblank hblank'
  refine ⟨t ++ (R.between ++ u), ?_, ?_, ?_, fun hfirst hlast => ?_⟩
  · rw [middle, spell_append, spell_append, spell_plain, hmark, hmark, ht, hu]
    simp
  · rw [List.mem_append, List.mem_append, not_or, not_or]
    exact ⟨hdollar.1, (R.of_not_mem_amount ha).2, hdollar'.2⟩
  · rw [List.countP_append, List.countP_append]
    omega
  · rw [(List.append_eq_nil_iff.1 (hnil hfirst)).1, (List.append_eq_nil_iff.1 (hnil' hlast)).2]
    conv_rhs => rw [R.between_eq, (R.nil_of_first hfirst).2]
    simp

theorem barrier_middle (hS : isPrivateUse S) (ha : Shape a) : Wrap.Barrier S (spell S R.middle) := by
  obtain ⟨t, ht, -, hcount, -⟩ := R.exists_spell_middle hS (ha.not_mem (by decide))
  rw [ht]
  refine ⟨⟨_, rfl, dollarEdge_eq S R.first⟩, ⟨_, ?_, dollarEdge_eq S R.last⟩, ?_⟩
  · rw [← List.cons_append, List.getLast?_concat]
  · have hblanks := ha.blanks
    simp [not_isBlank_dollarEdge hS]
    omega

theorem dollarsAtEnds_middle (hS : isPrivateUse S) (ha : '$' ∉ a) :
    Dollar.DollarsAtEnds (spell S R.middle) := by
  obtain ⟨t, ht, hdollar, -⟩ := R.exists_spell_middle hS ha
  rw [ht]
  exact Dollar.dollarsAtEnds_of_not_mem hdollar

theorem backslash_not_mem_spell_middle (hS : isPrivateUse S) (ha : '\\' ∉ a) :
    '\\' ∉ spell S R.middle := by
  rw [← Dress.spell_own, Dress.mem_spell_iff (plain_of_isSign (by decide)) hS]
  exact R.sound_middle ha (by decide)

/-- The middle is a span only if no amount is read at either dollar. -/
theorem eq_of_spell_middle_eq_span (hS : isPrivateUse S) (ha : '$' ∉ a) {body : Text}
    (h : spell S R.middle = Dollar.span body) : R.first = false ∧ R.last = false ∧ body = a := by
  have hne : S ≠ '$' := by
    rintro rfl
    exact absurd hS (by decide)
  have hedge : ∀ b, dollarEdge S b = '$' → b = false := fun b hb => by
    cases b
    · rfl
    · exact absurd hb hne
  obtain ⟨t, ht, -, -, hsame⟩ := R.exists_spell_middle hS ha
  rw [ht, Dollar.span, List.cons_append] at h
  obtain ⟨hfirst, h⟩ := List.cons.inj h
  obtain ⟨rfl, hlast⟩ := List.append_inj' h rfl
  have hfirst := hedge _ hfirst
  have hlast := hedge _ (List.cons.inj hlast).1
  exact ⟨hfirst, hlast, hsame hfirst hlast⟩

end PairReading

end Amount

end MarkdownPrep
