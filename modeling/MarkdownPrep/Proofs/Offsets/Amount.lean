import MarkdownPrep.Amount.Currency
import MarkdownPrep.Offsets.Amount
import MarkdownPrep.Proofs.Amount.Read
import MarkdownPrep.Proofs.Offsets.Extent
import MarkdownPrep.Proofs.Text.CharCode

/-!
# Amounts by offset are amounts
-/

namespace MarkdownPrep.Offsets

open Text

/-- The offset of the place in `s` from which on it goes on with `t`. -/
def offsetOf (s t : Text) : Nat := utf8Size s - utf8Size t

theorem offsetOf_eq {s t : Text} {i : Nat} (h : At s i t) : offsetOf s t = i := by
  rw [offsetOf, ← length_bytes s, h.length_bytes]
  exact Nat.add_sub_cancel i _

@[simp] theorem offsetOf_append (t u : Text) : offsetOf (t ++ u) u = utf8Size t :=
  offsetOf_eq ⟨t, rfl, rfl⟩

theorem at_offsetOf {s t : Text} (h : t <:+ s) : At s (offsetOf s t) t := by
  obtain ⟨u, rfl⟩ := h
  exact ⟨u, rfl, by rw [offsetOf, utf8Size_append, Nat.add_sub_cancel]⟩

variable {s t : Text} {i : Nat}

/-! ## Digits -/

theorem toNat_lt_of_isDigit {c : Char} (h : c.isDigit) : c.toNat < 128 := by
  rw [isDigit_iff] at h
  omega

theorem isDigitByte_eq {c : Char} {b : UInt8} (hb : b ∈ String.utf8EncodeChar c) :
    isDigitByte b = c.isDigit := by
  have hbyte : isDigitByte b ↔ 48 ≤ b.toNat ∧ b.toNat ≤ 57 := by
    rw [isDigitByte, Bool.and_eq_true, decide_eq_true_iff, decide_eq_true_iff]
    rfl
  rw [Bool.eq_iff_iff, hbyte, isDigit_iff]
  by_cases hc : c.toNat < 128
  · rw [utf8EncodeChar_of_lt hc, List.mem_singleton] at hb
    rw [hb, toNat_toUInt8 hc]
  · have := le_of_mem_utf8EncodeChar hc hb
    omega

theorem digits?_eq (h : At s i t) : digits? i s = some (t.takeWhile Char.isDigit).length := by
  rw [digits?, h.bytesFrom?, Option.map_some,
    length_takeWhile_bytes (fun _ => toNat_lt_of_isDigit) fun _ _ => isDigitByte_eq]

theorem at_dropWhile_isDigit (h : At s i t) :
    At s (i + (t.takeWhile Char.isDigit).length) (t.dropWhile Char.isDigit) :=
  h.dropWhile fun _ => toNat_lt_of_isDigit

/-! ## Suffixes -/

theorem isSpaceAt_eq (h : At s i t) : isSpaceAt i s = t.head?.any fun c => c = ' ' || c = '\t' := by
  rw [isSpaceAt, h.isAt (by decide), h.isAt (by decide)]
  cases t <;> simp

theorem at_skipSpace (h : At s i t) : At s (skipSpace i s) (Amount.dropSpace t) := by
  rw [skipSpace, isSpaceAt_eq h]
  cases t with
  | nil => exact h
  | cons c t =>
    rw [Amount.dropSpace]
    by_cases hc : c = ' ' || c = '\t'
    · rw [if_pos hc, if_pos (by simpa using hc)]
      refine h.cons_of_lt ?_
      simp at hc
      rcases hc with rfl | rfl <;> decide
    · rw [if_neg hc, if_neg (by simpa using hc)]
      exact h

theorem toNat_lt_of_isAlpha {c : Char} (h : c.isAlpha) : c.toNat < 128 := by
  rw [isAlpha_iff] at h
  omega

/-- What equals a word of letters but for case has as many bytes as characters. -/
theorem utf8Size_of_eqIgnoringCase {u word : Text} (hw : ∀ c ∈ word, c.toLower.isAlpha)
    (h : eqIgnoringCase u word) : u.length = word.length ∧ utf8Size u = word.length := by
  have hlower : u.map Char.toLower = word.map Char.toLower := beq_iff_eq.1 h
  have hlength : u.length = word.length := by simpa using congrArg List.length hlower
  refine ⟨hlength, (utf8Size_of_ascii fun c hc => ?_).trans hlength⟩
  have hc' := List.mem_map_of_mem (f := Char.toLower) hc
  rw [hlower] at hc'
  obtain ⟨d, hd, heq⟩ := List.mem_map.1 hc'
  exact toNat_lt_of_isAlpha (Amount.isAlpha_of_isAlpha_toLower (heq ▸ hw d hd))

theorem wordEnd?_eq (h : At s i t) {word : Text} (hw : ∀ c ∈ word, c.toLower.isAlpha) :
    wordEnd? i s word =
      some ((dropPrefixIgnoringCase? word t).toList.map (offsetOf s)) := by
  have hsize : utf8Size word = word.length :=
    (utf8Size_of_eqIgnoringCase hw (beq_self_eq_true _)).2
  rw [wordEnd?, h.from?, Option.bind_eq_bind, Option.bind_some, hsize, dropPrefixIgnoringCase?]
  by_cases hmatch : eqIgnoringCase (t.take word.length) word
  · obtain ⟨-, htake⟩ := utf8Size_of_eqIgnoringCase hw hmatch
    have hsplit := splitAt?_append (t.take word.length) (t.drop word.length)
    have hslice := (At.start (t.take word.length ++ t.drop word.length)).slice?
    have hat := At.append (t := t.take word.length) (u := t.drop word.length) (s := s) (i := i)
      (by rwa [List.take_append_drop])
    have hle : word.length ≤ utf8Size t := by
      rw [← htake]
      conv_rhs => rw [← List.take_append_drop word.length t, utf8Size_append]
      exact Nat.le_add_right _ _
    rw [List.take_append_drop, htake] at hsplit hslice
    rw [Nat.zero_add] at hslice
    rw [htake] at hat
    simp [hmatch, hsplit, hslice, hle, offsetOf_eq hat]
  · rw [if_neg hmatch]
    dsimp only
    split
    · next hfits =>
      obtain ⟨⟨u, v⟩, hsplit⟩ := Option.isSome_iff_exists.1 (Bool.and_eq_true_iff.1 hfits).2
      obtain ⟨rfl, hu⟩ := splitAt?_eq_some_iff.1 hsplit
      have hslice : slice? 0 word.length (u ++ v) = some u :=
        slice?_eq_some_iff.2 ⟨[], v, rfl, rfl, hu⟩
      have hother : ¬ eqIgnoringCase u word := fun heq =>
        hmatch (by rwa [List.take_left' (utf8Size_of_eqIgnoringCase hw heq).1])
      simp [hslice, hother]
    · rfl

theorem any_isAt (h : At s i t) {as : List Char} (has : ∀ a ∈ as, a.toNat < 128) :
    as.any (isAt · i s) = t.head?.any as.contains := by
  rw [Bool.eq_iff_iff, List.any_eq_true]
  cases t with
  | nil =>
    refine iff_of_false ?_ (by simp)
    rintro ⟨a, ha, hat⟩
    simp [h.isAt (has a ha)] at hat
  | cons c t =>
    rw [List.head?_cons, Option.any_some, List.contains_iff_mem]
    constructor
    · rintro ⟨a, ha, hat⟩
      obtain rfl : c = a := by simpa [h.isAt (has a ha)] using hat
      exact ha
    · exact fun hc => ⟨c, hc, by simp [h.isAt (has c hc)]⟩

theorem toNat_lt_of_mem_magnitudeLetters {c : Char} (hc : c ∈ Amount.magnitudeLetters) :
    c.toNat < 128 := by
  have hall : Amount.magnitudeLetters.all (·.toNat < 128) := by decide
  exact of_decide_eq_true (List.all_eq_true.1 hall c hc)

theorem magnitudeEnds?_eq (h : At s i t) :
    magnitudeEnds? i s = some ((Amount.afterMagnitude t).map (offsetOf s)) := by
  have hletters : ∀ word ∈ Amount.magnitudeWords, word.all (·.toLower.isAlpha) := by decide
  have hwords := collect?_map (g := id) fun word hword =>
    wordEnd?_eq h (List.all_eq_true.1 (hletters word hword))
  rw [List.map_id, ← List.filterMap_eq_flatMap_toList] at hwords
  simp only [magnitudeEnds?, hwords, any_isAt h fun _ => toNat_lt_of_mem_magnitudeLetters]
  cases t with
  | nil => simp [Amount.afterMagnitude]
  | cons c t =>
    by_cases hc : c ∈ Amount.magnitudeLetters
    · have hat := offsetOf_eq (h.cons_of_lt (toNat_lt_of_mem_magnitudeLetters hc))
      simp [Amount.afterMagnitude, hc, hat]
    · simp [Amount.afterMagnitude, hc]

theorem suffixEnds?_eq (h : At s i t) :
    suffixEnds? i s = some ((Amount.afterSuffix t).map (offsetOf s)) := by
  rw [suffixEnds?, isSpaceAt_eq h, magnitudeEnds?_eq h]
  cases t with
  | nil => simp [Amount.afterSuffix, offsetOf_eq h]
  | cons c t =>
    by_cases hc : c = ' ' ∨ c = '\t'
    · have hat : At s (i + 1) t := h.cons_of_lt (by rcases hc with rfl | rfl <;> decide)
      simp [Amount.afterSuffix, hc, magnitudeEnds?_eq hat, offsetOf_eq h]
    · simp [Amount.afterSuffix, hc, offsetOf_eq h]

/-! ## Figures -/

theorem closedEnds?_eq (h : At s i t) : closedEnds? i s =
    some (((Amount.afterParenthesis t).flatMap Amount.afterSuffix).map (offsetOf s)) := by
  rw [closedEnds?, h.isAt (by decide), suffixEnds?_eq h]
  by_cases hc : t.head? = some ')'
  · obtain ⟨t, rfl⟩ := List.head?_eq_some_iff.1 hc
    simp [Amount.afterParenthesis, suffixEnds?_eq (h.cons_of_lt (by decide))]
  · have hnone : Amount.afterParenthesis t = [t] := by
      rw [Amount.afterParenthesis]
      rintro u rfl
      exact hc rfl
    simp [hc, hnone]

theorem fractionEnds?_eq (h : At s i t) : fractionEnds? i s =
    some ((Amount.afterFraction Char.isDigit t).map (offsetOf s)) := by
  rw [fractionEnds?, h.isAt (by decide)]
  by_cases hc : t.head? = some '.'
  · obtain ⟨t, rfl⟩ := List.head?_eq_some_iff.1 hc
    have hat := h.cons_of_lt (by decide)
    have hend := offsetOf_eq (at_dropWhile_isDigit hat)
    cases t with
    | nil => simp [digits?_eq hat, Amount.afterFraction, offsetOf_eq h]
    | cons d t =>
      by_cases hd : d.isDigit
      · rw [List.takeWhile_cons_of_pos hd, List.dropWhile_cons_of_pos hd, List.length_cons] at hend
        simp [digits?_eq hat, Amount.afterFraction, hd, offsetOf_eq h, hend]
      · simp [digits?_eq hat, Amount.afterFraction, hd, offsetOf_eq h]
  · have hnone : Amount.afterFraction Char.isDigit t = [t] := by
      rw [Amount.afterFraction]
      rintro u rfl
      exact hc rfl
    simp [hc, hnone, offsetOf_eq h]

/-- Three characters of a kind that no fourth follows. -/
theorem length_takeWhile_eq_three_iff {p : Char → Bool} {a b c : Char} {t : Text} :
    ((a :: b :: c :: t).takeWhile p).length = 3 ↔ p a && p b && p c && !t.head?.any p := by
  cases t with
  | nil => cases ha : p a <;> cases hb : p b <;> cases hc : p c <;> simp [ha, hb, hc]
  | cons d t =>
    cases ha : p a <;> cases hb : p b <;> cases hc : p c <;> cases hd : p d <;>
      simp [ha, hb, hc, hd]

theorem afterGroups_comma (p : Char → Bool) (t : Text) :
    Amount.afterGroups p (',' :: t) =
      if (t.takeWhile p).length = 3 then Amount.afterGroups p (t.drop 3) ++ [',' :: t]
      else [',' :: t] := by
  have hle := (List.takeWhile_sublist (l := t) p).length_le
  rcases t with _ | ⟨a, _ | ⟨b, _ | ⟨c, t⟩⟩⟩
  · rfl
  · rw [if_neg (by simp at hle ⊢; omega)]; rfl
  · rw [if_neg (by simp at hle ⊢; omega)]; rfl
  · simp only [length_takeWhile_eq_three_iff]
    rfl

theorem groupEnds?_eq (fuel : Nat) (h : At s i t) (hfuel : t.length < fuel) : groupEnds? s fuel i =
    some ((Amount.afterGroups Char.isDigit t).reverse.map (offsetOf s)) := by
  induction fuel generalizing i t with
  | zero => omega
  | succ fuel ih =>
    rw [groupEnds?, h.isAt (by decide)]
    by_cases hc : t.head? = some ','
    · obtain ⟨t, rfl⟩ := List.head?_eq_some_iff.1 hc
      have hat := h.cons_of_lt (by decide)
      rw [digits?_eq hat, afterGroups_comma]
      by_cases hthree : (t.takeWhile Char.isDigit).length = 3
      · have hat' := at_dropWhile_isDigit hat
        rw [← drop_length_takeWhile, hthree] at hat'
        have hrest := ih hat' (by simp at hfuel ⊢; omega)
        simp [hthree, hrest, offsetOf_eq h]
      · simp [hthree, offsetOf_eq h]
    · have hnone : Amount.afterGroups Char.isDigit t = [t] := by
        rw [Amount.afterGroups]
        rintro a b c u rfl
        exact hc rfl
      simp [hc, hnone, offsetOf_eq h]

theorem at_dropOne (h : At s i t) {a : Char} (ha : a.toNat < 128) :
    At s (if isAt a i s then i + 1 else i) (dropOne a t) := by
  rw [h.isAt ha]
  cases t with
  | nil => exact h
  | cons c t =>
    rw [dropOne]
    by_cases hc : c = a
    · rw [if_pos hc, if_pos (by simp [hc])]
      exact h.cons_of_lt (hc ▸ ha)
    · rw [if_neg hc, if_neg (by simp [hc])]
      exact h

/-- The ends of a fraction and what may follow it. -/
theorem collect?_fractionEnds {f : Nat → Option (List Nat)} {g : Text → List Text}
    (hf : ∀ {i t}, At s i t → f i = some ((g t).map (offsetOf s))) (h : At s i t) :
    (fractionEnds? i s).bind (collect? f) =
      some (((Amount.afterFraction Char.isDigit t).flatMap g).map (offsetOf s)) := by
  rw [fractionEnds?_eq h, Option.bind_some]
  refine collect?_map fun u hu => hf (at_offsetOf ?_)
  exact (Amount.suffix_of_mem_afterFraction hu).trans h.suffix

theorem groupedEnds?_eq (h : At s i t) :
    groupedEnds? i s = some ((Amount.afterGrouped t).map (offsetOf s)) := by
  have hcount : ∀ n : Nat, (1 ≤ n && n ≤ 3 : Bool) = !(n = 0 || 3 < n : Bool) := fun n => by
    rw [Bool.eq_iff_iff]
    simp
    omega
  have hfigure := at_dropOne h (a := '(') (by decide)
  rw [groupedEnds?, Amount.afterGrouped]
  generalize dropOne '(' t = figure at hfigure
  generalize (if isAt '(' i s then i + 1 else i) = j at hfigure
  have hlead := at_dropWhile_isDigit hfigure
  simp only [digits?_eq hfigure, Option.bind_eq_bind, Option.bind_some, hcount]
  cases ((figure.takeWhile Char.isDigit).length = 0 ||
    3 < (figure.takeWhile Char.isDigit).length : Bool) with
  | true => rfl
  | false =>
    have hgroups := groupEnds?_eq (s.bytes.length + 1) hlead (by
      have := length_le_utf8Size (figure.dropWhile Char.isDigit)
      have := hlead.length_bytes
      omega)
    simp only [drop_length_takeWhile, hgroups, Option.bind_some, ← List.map_reverse,
      List.reverse_reverse, Bool.not_false, if_true, Bool.false_eq_true, if_false]
    refine collect?_map fun u hu => ?_
    have hat := at_offsetOf ((Amount.suffix_of_mem_afterGroups hu).trans hlead.suffix)
    exact collect?_fractionEnds closedEnds?_eq hat

theorem plainEnds?_eq (h : At s i t) :
    plainEnds? i s = some ((Amount.afterPlain t).map (offsetOf s)) := by
  have hfigure := at_dropOne h (a := '-') (by decide)
  rw [plainEnds?, Amount.afterPlain]
  generalize dropOne '-' t = figure at hfigure
  generalize (if isAt '-' i s then i + 1 else i) = j at hfigure
  have hint := at_dropWhile_isDigit hfigure
  simp only [digits?_eq hfigure, Option.bind_eq_bind, Option.bind_some]
  cases hdigit : figure.head?.any Char.isDigit with
  | false =>
    have hnone : (figure.takeWhile Char.isDigit).length = 0 := by
      cases figure with
      | nil => rfl
      | cons c figure =>
        rw [List.head?_cons, Option.any_some] at hdigit
        rw [List.takeWhile_cons_of_neg (by simp [hdigit])]
        rfl
    rw [if_pos hnone]
    rfl
  | true =>
    have hsome : ¬ (figure.takeWhile Char.isDigit).length = 0 := by
      cases figure with
      | nil => cases hdigit
      | cons c figure =>
        rw [List.head?_cons, Option.any_some] at hdigit
        rw [List.takeWhile_cons_of_pos hdigit]
        exact Nat.succ_ne_zero _
    rw [if_neg hsome]
    exact collect?_fractionEnds suffixEnds?_eq hint

/-! ## Amounts and ranges -/

theorem firstEnd?_eq {ts : List Text} (h : ∀ t ∈ ts, t <:+ s) :
    firstEnd? s (ts.map (offsetOf s)) =
      some ((ts.find? (!startsWithName ·)).map (offsetOf s)) := by
  induction ts with
  | nil => rfl
  | cons t ts ih =>
    rw [List.forall_mem_cons] at h
    have hat := at_offsetOf h.1
    have hruns : (if s.bytes.length ≤ offsetOf s t then some false
        else (from? (offsetOf s t) s).map startsWithName) = some (startsWithName t) := by
      rw [hat.from?, hat.length_bytes]
      cases t with
      | nil => simp [startsWithName]
      | cons c t =>
        have := c.utf8Size_pos
        rw [if_neg (by rw [utf8Size_cons]; omega), Option.map_some]
    rw [List.map_cons, firstEnd?, hruns, List.find?_cons]
    cases hname : startsWithName t with
    | true => simpa using ih h.2
    | false => rfl

/-- A dollar is escaped if a backslash stands before it. -/
theorem isEscaped?_eq (u t : Text) :
    isEscaped? (utf8Size u) (u ++ t) = some (decide (u.getLast? = some '\\')) := by
  rw [isEscaped?]
  by_cases hu : u = []
  · simp [hu]
  · obtain ⟨b, hb, hlast⟩ := exists_byteBefore? hu t
    rw [if_neg (mt utf8Size_eq_zero_iff.1 hu), hb, Option.map_some]
    simp [hlast '\\' (by decide)]

theorem dollarEnd?_of_ne (negative : Bool) (h : At s i t) (ht : t.head? ≠ some '$') :
    dollarEnd? negative i s = some none := by
  rw [dollarEnd?, h.isAt (by decide), decide_eq_false ht]
  rfl

/-- What is read after a dollar that stands after `u`. -/
theorem dollarEnd?_eq (negative : Bool) (u t : Text) :
    dollarEnd? negative (utf8Size u) (u ++ '$' :: t) = some
      ((if u.getLast? = some '\\' then none
        else (Amount.afterGrouped t ++ if negative then [] else Amount.afterPlain t).find?
          (!startsWithName ·)).map (offsetOf (u ++ '$' :: t))) := by
  have h : At (u ++ '$' :: t) (utf8Size u) ('$' :: t) := ⟨u, rfl, rfl⟩
  have hat := h.cons_of_lt (by decide)
  have hplain : (if negative then some [] else plainEnds? (utf8Size u + 1) (u ++ '$' :: t)) =
      some ((if negative then [] else Amount.afterPlain t).map (offsetOf (u ++ '$' :: t))) := by
    cases negative with
    | true => rfl
    | false => exact plainEnds?_eq hat
  have hsuffix : ∀ v ∈ Amount.afterGrouped t ++ if negative then [] else Amount.afterPlain t,
      v <:+ t := by
    intro v hv
    obtain hv | hv := List.mem_append.1 hv
    · exact Amount.suffix_of_mem_afterGrouped hv
    · cases negative with
      | true => cases hv
      | false => exact Amount.suffix_of_mem_afterPlain hv
  rw [dollarEnd?, h.isAt (by decide), isEscaped?_eq, groupedEnds?_eq hat, hplain]
  by_cases hlast : u.getLast? = some '\\'
  · simp [hlast]
  · have hfirst := firstEnd?_eq fun v hv => (hsuffix v hv).trans hat.suffix
    rw [List.map_append] at hfirst
    simp [hlast, hfirst]

/-- No amount is found where no place between characters is. -/
theorem amountEnd?_of_not_at (h : ∀ t, ¬ At s i t) : amountEnd? i s = some none := by
  have hnot : ∀ a : Char, a.toNat < 128 → isAt a i s = false := by
    refine fun a ha => Bool.eq_false_iff.2 fun hat => ?_
    obtain ⟨t, ht⟩ := At.exists_of_isAt ha hat
    exact h _ ht
  rw [amountEnd?, hnot '-' (by decide), if_neg Bool.false_ne_true, dollarEnd?,
    hnot '$' (by decide)]
  rfl

/-- The end of the amount that stands after `u`. -/
theorem amountEnd?_eq (u t : Text) : amountEnd? (utf8Size u) (u ++ t) =
    some ((Amount.afterAmount? u.getLast? t).map (offsetOf (u ++ t))) := by
  have h : At (u ++ t) (utf8Size u) t := ⟨u, rfl, rfl⟩
  rw [amountEnd?, h.isAt (by decide)]
  by_cases hminus : t.head? = some '-'
  · obtain ⟨t, rfl⟩ := List.head?_eq_some_iff.1 hminus
    have hat := h.cons_of_lt (by decide)
    rw [if_pos (by rfl)]
    by_cases hdollar : t.head? = some '$'
    · obtain ⟨t, rfl⟩ := List.head?_eq_some_iff.1 hdollar
      have hend := dollarEnd?_eq true (u ++ ['-']) t
      have hsize : utf8Size (u ++ ['-']) = utf8Size u + 1 := utf8Size_concat u '-'
      rw [hsize, ← List.append_cons] at hend
      simp [hend, Amount.afterAmount?]
    · rw [dollarEnd?_of_ne true hat hdollar, Amount.afterAmount?_eq_none]
      · rfl
      · rintro v ⟨⟩
      · rintro v ⟨⟩
        exact hdollar rfl
  · rw [if_neg (by simpa using hminus)]
    by_cases hdollar : t.head? = some '$'
    · obtain ⟨t, rfl⟩ := List.head?_eq_some_iff.1 hdollar
      rw [dollarEnd?_eq, Amount.afterAmount?]
      simp
    · rw [dollarEnd?_of_ne false h hdollar, Amount.afterAmount?_eq_none]
      · rfl
      · rintro v rfl
        exact hdollar rfl
      · rintro v rfl
        exact hminus rfl

end MarkdownPrep.Offsets
