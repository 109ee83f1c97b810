import MarkdownPrep.Proofs.Amount.Lexeme

/-!
# The longest amount

The parts of an amount are read one after the other, and whatever a plain figure leaves is left by a
grouped one too, so the ways to read an amount come in the order of their lengths (`reads_lexeme`).
The amount that is read is the first one that no letter, digit or underscore follows, and with it
the longest (`afterAmount?_eq_some_iff`).
-/

namespace MarkdownPrep.Amount

open Text Computability

variable {c : Char} {s t rest : Text} {l m : Language Char} {read next : Text → List Text}

/-! ## Figures -/

theorem exists_dropOne (c : Char) (s : Text) : ∃ p ∈ optional (sign c), p ++ dropOne c s = s := by
  cases s with
  | nil => exact ⟨[], .inl rfl, rfl⟩
  | cons d s =>
    rw [dropOne]
    split
    · next h => exact ⟨[c], .inr rfl, by rw [h]; rfl⟩
    · exact ⟨[], .inl rfl, rfl⟩

theorem dropOne_append (ht : t ∈ optional (sign c)) (hs : s.head? ≠ some c) :
    dropOne c (t ++ s) = s := by
  rcases mem_optional.1 ht with rfl | ht
  · cases s with
    | nil => rfl
    | cons d s => exact if_neg fun h => hs (congrArg some h)
  · rw [mem_sign.1 ht]
    exact if_pos rfl

/-- An optional sign and a run of digits are read before the rest of a figure. -/
theorem reads_figure {cs : List Char} {count : Set Nat} [DecidablePred (· ∈ count)]
    (hzero : 0 ∉ count) (hc : ¬ c.isDigit) (hm : Reads next m) (hcs : BeginsWith cs m)
    (hdigit : cs.any Char.isDigit = false)
    (hread : ∀ s, read s =
      if ((dropOne c s).takeWhile Char.isDigit).length ∈ count then
        next ((dropOne c s).dropWhile Char.isDigit)
      else []) :
    Reads read (optional (sign c) * digits count * m) where
  sound {s rest} h := by
    rw [hread] at h
    split at h
    · next hcount =>
      obtain ⟨p, hp, hs⟩ := exists_dropOne c s
      obtain ⟨v, hv, hrest⟩ := hm.sound h
      have hdigits : (dropOne c s).takeWhile Char.isDigit ∈ digits count :=
        ⟨fun _ => List.mem_takeWhile_imp, hcount⟩
      refine ⟨_, Language.append_mem_mul (Language.append_mem_mul hp hdigits) hv, ?_⟩
      rw [List.append_assoc, hrest, List.append_assoc, List.takeWhile_append_dropWhile, hs]
    · cases h
  complete {t rest} ht hrest := by
    obtain ⟨pu, hpu, v, hv, rfl⟩ := Language.mem_mul.1 ht
    obtain ⟨p, hp, u, ⟨hdigits, hcount⟩, rfl⟩ := Language.mem_mul.1 hpu
    have hfigure : dropOne c (p ++ (u ++ (v ++ rest))) = u ++ (v ++ rest) := by
      refine dropOne_append hp fun hhead => ?_
      rcases u with _ | ⟨d, u⟩
      · exact hzero hcount
      · cases hhead
        exact hc (hdigits c List.mem_cons_self)
    have hend := hcs.any_head? hdigit hv hrest
    rw [List.append_assoc, List.append_assoc, hread, hfigure,
      takeWhile_append_of_digits hdigits hend, if_pos hcount,
      dropWhile_append_of_digits hdigits hend]
    exact hm.complete hv hrest
  longest s := by
    rw [hread]
    split
    · exact hm.longest _
    · exact .nil

theorem reads_closed :
    Reads (fun s => (afterParenthesis s).flatMap afterSuffix) (optional (sign ')') * suffix) :=
  reads_parenthesis.mul reads_suffix beginsWith_suffix (by decide) (by decide)
    fun s => (pairwise_afterParenthesis s).imp And.right

theorem beginsWith_closed :
    BeginsWith (')' :: ' ' :: '\t' :: magnitudeLetters) (optional (sign ')') * suffix) :=
  (beginsWith_sign ')').optional.mul beginsWith_suffix

theorem beginsWith_fraction : BeginsWith ['.'] fraction := by
  refine BeginsWith.optional fun t ht c hc => ?_
  obtain ⟨p, hp, u, -, rfl⟩ := Language.mem_mul.1 ht
  rw [mem_sign.1 hp] at hc
  simpa using hc.symm

theorem reads_grouped : Reads afterGrouped (groupedFigure * suffix) := by
  have hfraction := reads_fraction.mul reads_closed beginsWith_closed (by decide) (by decide)
    fun s => (pairwise_afterFraction s).imp And.right
  have htail := beginsWith_fraction.mul beginsWith_closed
  have hgroups := reads_groups.mul hfraction htail (by decide) (by decide)
    fun s => (pairwise_afterGroups s).imp And.right
  have hread : Reads afterGrouped (optional (sign '(') * digits (Set.Icc 1 3) * _) :=
    reads_figure (by decide) (by decide) hgroups (beginsWith_groups.mul htail) (by decide)
      fun s => by
        simp only [afterGrouped, drop_length_takeWhile, Set.mem_Icc, Bool.and_eq_true,
          decide_eq_true_eq]
  simpa only [groupedFigure, mul_assoc] using hread

theorem head?_any_iff {p : Char → Bool} : s.head?.any p ↔ 1 ≤ (s.takeWhile p).length := by
  cases s with
  | nil => simp
  | cons c s => by_cases hc : p c <;> simp [hc]

theorem reads_plain : Reads afterPlain (plainFigure * suffix) := by
  have hfraction := reads_fraction.mul reads_suffix beginsWith_suffix (by decide) (by decide)
    fun s => (pairwise_afterFraction s).imp And.right
  have hread : Reads afterPlain (optional (sign '-') * digits (Set.Ici 1) * _) :=
    reads_figure (by decide) (by decide) hfraction (beginsWith_fraction.mul beginsWith_suffix)
      (by decide) fun s => by simp only [afterPlain, head?_any_iff, Set.mem_Ici]
  simpa only [plainFigure, mul_assoc] using hread

/-- Where a grouped figure can be read, whatever a plain one leaves is left by a grouped one. -/
theorem afterPlain_subset_afterGrouped (h : afterGrouped s ≠ []) :
    afterPlain s ⊆ afterGrouped s := by
  intro rest hrest
  simp only [afterGrouped, afterPlain, drop_length_takeWhile] at h hrest ⊢
  split at h
  · next hlead =>
    rw [if_pos hlead]
    split at hrest
    · next hdigit =>
      have hparenthesis : dropOne '(' s = s := by
        rcases s with _ | ⟨c, s⟩
        · rfl
        · exact if_neg fun hc => absurd hdigit (by rw [hc]; exact Bool.false_ne_true)
      have hminus : dropOne '-' s = s := by
        rw [hparenthesis] at hlead
        rcases s with _ | ⟨c, s⟩
        · rfl
        · exact if_neg fun hc => absurd hlead (by rw [hc]; exact Bool.false_ne_true)
      rw [hminus] at hrest
      rw [hparenthesis]
      obtain ⟨u, hu, hrest⟩ := List.mem_flatMap.1 hrest
      refine List.mem_flatMap.2 ⟨_, self_mem_afterGroups _, List.mem_flatMap.2 ⟨u, hu, ?_⟩⟩
      exact List.mem_flatMap.2 ⟨u, self_mem_afterParenthesis u, hrest⟩
    · cases hrest
  · exact absurd rfl h

theorem find?_append_of_subset {α : Type} {p : α → Bool} {as bs : List α} (h : bs ⊆ as) :
    (as ++ bs).find? p = as.find? p := by
  rw [List.find?_append]
  cases has : as.find? p with
  | some a => rfl
  | none =>
    rw [Option.none_or, List.find?_eq_none]
    exact fun b hb => List.find?_eq_none.1 has b (h hb)

/-- The ways to read a figure of either form, the longest one first. -/
def afterFigure (s : Text) : List Text :=
  if afterGrouped s = [] then afterPlain s else afterGrouped s

theorem find?_afterFigure (p : Text → Bool) (s : Text) :
    (afterGrouped s ++ afterPlain s).find? p = (afterFigure s).find? p := by
  rw [afterFigure]
  split
  · next hnil => rw [hnil, List.nil_append]
  · next hgrouped => exact find?_append_of_subset (afterPlain_subset_afterGrouped hgrouped)

theorem reads_afterFigure : Reads afterFigure ((groupedFigure + plainFigure) * suffix) where
  sound {s rest} h := by
    rw [add_mul]
    unfold afterFigure at h
    split at h
    · obtain ⟨t, ht, hs⟩ := reads_plain.sound h
      exact ⟨t, .inr ht, hs⟩
    · obtain ⟨t, ht, hs⟩ := reads_grouped.sound h
      exact ⟨t, .inl ht, hs⟩
  complete {t rest} ht hrest := by
    rw [add_mul] at ht
    unfold afterFigure
    split
    · next hnil =>
      rcases ht with ht | ht
      · exact absurd (reads_grouped.complete ht hrest) (by rw [hnil]; exact List.not_mem_nil)
      · exact reads_plain.complete ht hrest
    · next hgrouped =>
      rcases ht with ht | ht
      · exact reads_grouped.complete ht hrest
      · exact afterPlain_subset_afterGrouped hgrouped (reads_plain.complete ht hrest)
  longest s := by
    unfold afterFigure
    split
    · exact reads_plain.longest _
    · exact reads_grouped.longest _

/-! ## Amounts -/

/-- The ways to read an amount, given the character before it, the longest one first. -/
def readings (before : Option Char) : Text → List Text
  | '-' :: '$' :: s => afterGrouped s
  | '$' :: s => if before = some '\\' then [] else afterFigure s
  | _ => []

theorem afterAmount?_eq_find? (before : Option Char) (s : Text) :
    afterAmount? before s = (readings before s).find? (!startsWithName ·) := by
  fun_cases readings before s with
  | case1 s => rfl
  | case2 s hbefore => rw [afterAmount?, if_pos hbefore]; rfl
  | case3 s hbefore => rw [afterAmount?, if_neg hbefore, find?_afterFigure]
  | case4 s hminus hdollar => rw [afterAmount?_eq_none before hdollar hminus]; rfl

theorem mem_sign_mul : t ∈ sign c * l ↔ ∃ u ∈ l, c :: u = t := by
  rw [Language.mem_mul]
  constructor
  · rintro ⟨p, hp, u, hu, rfl⟩
    exact ⟨u, hu, by rw [mem_sign.1 hp]; rfl⟩
  · rintro ⟨u, hu, rfl⟩
    exact ⟨[c], rfl, u, hu, rfl⟩

theorem mem_unsigned :
    t ∈ unsigned ↔ ∃ u ∈ (groupedFigure + plainFigure) * suffix, '$' :: u = t := by
  rw [unsigned, mul_assoc, mem_sign_mul]

theorem mem_signed : t ∈ signed ↔ ∃ u ∈ groupedFigure * suffix, '-' :: '$' :: u = t := by
  rw [signed, mul_assoc, mul_assoc, mem_sign_mul]
  simp only [mem_sign_mul]
  constructor
  · rintro ⟨_, ⟨u, hu, rfl⟩, rfl⟩
    exact ⟨u, hu, rfl⟩
  · rintro ⟨u, hu, rfl⟩
    exact ⟨'$' :: u, ⟨u, hu, rfl⟩, rfl⟩

theorem mem_lexeme {before : Option Char} :
    t ∈ lexeme before ↔ (before ≠ some '\\' ∧ t ∈ unsigned) ∨ t ∈ signed := Iff.rfl

theorem reads_lexeme (before : Option Char) : Reads (readings before) (lexeme before) where
  sound {s rest} := by
    fun_cases readings before s with
    | case1 s =>
      intro h
      obtain ⟨t, ht, rfl⟩ := reads_grouped.sound h
      exact ⟨'-' :: '$' :: t, .inr (mem_signed.2 ⟨t, ht, rfl⟩), rfl⟩
    | case2 s _ => exact nofun
    | case3 s hbefore =>
      intro h
      obtain ⟨t, ht, rfl⟩ := reads_afterFigure.sound h
      exact ⟨'$' :: t, .inl ⟨hbefore, mem_unsigned.2 ⟨t, ht, rfl⟩⟩, rfl⟩
    | case4 => exact nofun
  complete {t rest} ht hrest := by
    rcases mem_lexeme.1 ht with ⟨hbefore, ht⟩ | ht
    · obtain ⟨u, hu, rfl⟩ := mem_unsigned.1 ht
      rw [List.cons_append, readings, if_neg hbefore]
      exact reads_afterFigure.complete hu hrest
    · obtain ⟨u, hu, rfl⟩ := mem_signed.1 ht
      exact reads_grouped.complete hu hrest
  longest s := by
    fun_cases readings before s with
    | case1 => exact reads_grouped.longest _
    | case2 => exact .nil
    | case3 => exact reads_afterFigure.longest _
    | case4 => exact .nil

theorem isNameChar_of_isDigit (h : c.isDigit) : isNameChar c := by
  rw [isNameChar, isAlphanumeric, isDecimalDigit, h]
  simp

/-- A text of the language that ends where a word ends is read. -/
theorem Reads.mem_iff (h : Reads read l) (hname : startsWithName rest = false) :
    rest ∈ read s ↔ IsRest l s rest := by
  refine ⟨fun hrest => ⟨h.sound hrest, hname⟩, ?_⟩
  rintro ⟨⟨t, ht, rfl⟩, -⟩
  refine h.complete ht ?_
  cases rest with
  | nil => rfl
  | cons c rest =>
    refine Bool.eq_false_iff.2 fun hdigit => Bool.eq_false_iff.1 hname ?_
    exact isNameChar_of_isDigit hdigit

theorem Reads.find?_eq_none_iff (h : Reads read l) :
    (read s).find? (!startsWithName ·) = none ↔ ∀ rest, ¬ IsRest l s rest := by
  rw [List.find?_eq_none]
  constructor
  · intro hnone rest hrest
    exact hnone rest ((h.mem_iff hrest.2).2 hrest) (by rw [hrest.2]; rfl)
  · intro hnone rest hrest hname
    rw [Bool.not_eq_true'] at hname
    exact hnone rest ((h.mem_iff hname).1 hrest)

/-- The first way to read that ends where a word ends is the longest one. -/
theorem Reads.find?_eq_some_iff (h : Reads read l) :
    (read s).find? (!startsWithName ·) = some rest ↔
      IsRest l s rest ∧ ∀ rest', IsRest l s rest' → rest <:+ rest' := by
  have hlongest : ∀ {rest}, (read s).find? (!startsWithName ·) = some rest →
      IsRest l s rest ∧ ∀ rest', IsRest l s rest' → rest <:+ rest' := by
    intro rest hfind
    obtain ⟨hname, before, after, hread, hbefore⟩ := List.find?_eq_some_iff_append.1 hfind
    rw [Bool.not_eq_true'] at hname
    refine ⟨(h.mem_iff hname).1 (by rw [hread]; simp), fun rest' hrest' => ?_⟩
    have hmem := (h.mem_iff hrest'.2).2 hrest'
    have hpairwise := h.longest s
    rw [hread] at hmem hpairwise
    rcases List.mem_append.1 hmem with hmem | hmem
    · have hno := hbefore rest' hmem
      rw [hrest'.2] at hno
      cases hno
    · rcases List.mem_cons.1 hmem with rfl | hmem
      · exact List.suffix_refl _
      · exact (List.pairwise_cons.1 (List.pairwise_append.1 hpairwise).2.1).1 rest' hmem
  refine ⟨hlongest, fun ⟨hrest, hall⟩ => ?_⟩
  cases hfind : (read s).find? (!startsWithName ·) with
  | none => exact absurd hrest (h.find?_eq_none_iff.1 hfind rest)
  | some rest' =>
    obtain ⟨hrest', hall'⟩ := hlongest hfind
    have hsame : rest'.length = rest.length :=
      Nat.le_antisymm (hall' rest hrest).length_le (hall rest' hrest').length_le
    rw [(hall' rest hrest).eq_of_length hsame]

/-- **The amount that is read is the longest one that ends where a word ends.** -/
theorem afterAmount?_eq_some_iff {before : Option Char} : afterAmount? before s = some rest ↔
    IsRest (lexeme before) s rest ∧ ∀ rest', IsRest (lexeme before) s rest' → rest <:+ rest' := by
  rw [afterAmount?_eq_find?, (reads_lexeme before).find?_eq_some_iff]

theorem afterAmount?_eq_none_iff {before : Option Char} :
    afterAmount? before s = none ↔ ∀ rest, ¬ IsRest (lexeme before) s rest := by
  rw [afterAmount?_eq_find?, (reads_lexeme before).find?_eq_none_iff]

end MarkdownPrep.Amount
