import Mathlib.Computability.Language
import MarkdownPrep.Proofs.Amount.Read

/-!
# The grammar of amounts

How an amount may be written, as a language of its own (`lexeme`), and how the parts of an amount
are read.

A reader reads a language (`Reads`) if what it leaves is what follows a text of the language, the
longest one first. It may miss texts that a digit follows, as those cannot end an amount. Readers
are put one after the other (`Reads.mul`) where none of them can go on with what another one can
begin with: then a text that the first reader could have read more of is left as it is by the
second.
-/

namespace MarkdownPrep.Amount

open Text Computability

/-! ## The language -/

/-- The text that is one character. -/
def sign (c : Char) : Language Char := {[c]}

/-- Texts of a language that may be missing. -/
def optional (l : Language Char) : Language Char := 1 + l

/-- Runs of digits, by how many there are. -/
def digits (count : Set Nat) : Language Char := {t : Text | (∀ c ∈ t, c.isDigit) ∧ t.length ∈ count}

/-- A comma and three digits. -/
def group : Language Char := sign ',' * digits {3}

/-- A point and digits after it, or nothing. -/
def fraction : Language Char := optional (sign '.' * digits (Set.Ici 1))

/-- The words for magnitudes, in any case. -/
def magnitude : Language Char :=
  {t : Text | ∃ w ∈ ["billion", "million", "kilo", "k", "m", "b"], eqIgnoringCase t w.toList}

/-- A magnitude, which may follow one space or tab, or nothing. -/
def suffix : Language Char := optional (optional (sign ' ' + sign '\t') * magnitude)

/-- A figure with thousands groups, which may stand in parentheses. -/
def groupedFigure : Language Char :=
  optional (sign '(') * digits (Set.Icc 1 3) * group∗ * fraction * optional (sign ')')

/-- A figure without groups, which may have a sign. -/
def plainFigure : Language Char := optional (sign '-') * digits (Set.Ici 1) * fraction

/-- An amount whose sign, if it has one, stands after the dollar. -/
def unsigned : Language Char := sign '$' * (groupedFigure + plainFigure) * suffix

/-- An amount whose sign stands before the dollar. -/
def signed : Language Char := sign '-' * sign '$' * groupedFigure * suffix

/-- The amounts, given the character before them. A dollar after a backslash begins none. -/
def lexeme (before : Option Char) : Language Char :=
  {t : Text | (before ≠ some '\\' ∧ t ∈ unsigned) ∨ t ∈ signed}

/-- What is left of `s` after a text of the language `l` at its front that no letter, digit or
underscore follows. -/
def IsRest (l : Language Char) (s rest : Text) : Prop :=
  (∃ t ∈ l, t ++ rest = s) ∧ startsWithName rest = false

variable {c : Char} {s t rest : Text} {l m : Language Char} {read next : Text → List Text}

theorem mem_sign : t ∈ sign c ↔ t = [c] := Iff.rfl

theorem mem_optional : t ∈ optional l ↔ t = [] ∨ t ∈ l := Iff.rfl

theorem mem_digits {count : Set Nat} :
    t ∈ digits count ↔ (∀ c ∈ t, c.isDigit) ∧ t.length ∈ count := Iff.rfl

/-! ## Reading a language -/

/-- `read` reads the language `l` off the front of a text. -/
structure Reads (read : Text → List Text) (l : Language Char) : Prop where
  sound : ∀ {s rest}, rest ∈ read s → ∃ t ∈ l, t ++ rest = s
  complete : ∀ {t rest}, t ∈ l → rest.head?.any Char.isDigit = false → rest ∈ read (t ++ rest)
  longest : ∀ s, (read s).Pairwise (· <:+ ·)

/-- The texts of `l` have one of the characters `cs` first, if they have any. -/
def BeginsWith (cs : List Char) (l : Language Char) : Prop := ∀ t ∈ l, ∀ c ∈ t.head?, c ∈ cs

theorem BeginsWith.mul {cs ds : List Char} (hl : BeginsWith cs l) (hm : BeginsWith ds m) :
    BeginsWith (cs ++ ds) (l * m) := by
  intro t ht c hc
  obtain ⟨u, hu, v, hv, rfl⟩ := Language.mem_mul.1 ht
  rcases u with _ | ⟨d, u⟩
  · exact List.mem_append_right _ (hm v hv c hc)
  · exact List.mem_append_left _ (hl _ hu c hc)

theorem BeginsWith.add {cs ds : List Char} (hl : BeginsWith cs l) (hm : BeginsWith ds m) :
    BeginsWith (cs ++ ds) (l + m) := by
  rintro t (ht | ht) c hc
  · exact List.mem_append_left _ (hl t ht c hc)
  · exact List.mem_append_right _ (hm t ht c hc)

theorem BeginsWith.optional {cs : List Char} (hl : BeginsWith cs l) :
    BeginsWith cs (optional l) := by
  intro t ht c hc
  rcases mem_optional.1 ht with rfl | ht
  · cases hc
  · exact hl t ht c hc

theorem beginsWith_sign (c : Char) : BeginsWith [c] (sign c) := by
  intro t ht d hd
  obtain rfl := mem_sign.1 ht
  simpa using hd.symm

/-- A text that does not go on with a digit does not do so after a text of `l` either. -/
theorem BeginsWith.any_head? {cs : List Char} (hl : BeginsWith cs l)
    (hdigit : cs.any Char.isDigit = false) (ht : t ∈ l)
    (hrest : rest.head?.any Char.isDigit = false) :
    (t ++ rest).head?.any Char.isDigit = false := by
  cases t with
  | nil => exact hrest
  | cons c t => simpa using List.any_eq_false.1 hdigit c (hl _ ht c rfl)

/-- Nothing of `l` is read off a text that begins otherwise. -/
theorem Reads.eq_of_mem {cs : List Char} (h : Reads read l) (hl : BeginsWith cs l)
    (hs : ∃ c ∈ s.head?, c ∉ cs) (hrest : rest ∈ read s) : rest = s := by
  obtain ⟨t, ht, rfl⟩ := h.sound hrest
  obtain ⟨c, hc, hnot⟩ := hs
  cases t with
  | nil => rfl
  | cons d t => exact absurd (hl _ ht c hc) hnot

theorem Reads.suffix (h : Reads read l) (hrest : rest ∈ read s) : rest <:+ s := by
  obtain ⟨t, -, rfl⟩ := h.sound hrest
  exact List.suffix_append t rest

/-- One language after another. -/
theorem Reads.mul {cs : List Char} (hl : Reads read l) (hm : Reads next m) (hcs : BeginsWith cs m)
    (hdigit : cs.any Char.isDigit = false) (hc : c ∉ cs)
    (hstop : ∀ s, (read s).Pairwise fun _ b => b.head? = some c) :
    Reads (fun s => (read s).flatMap next) (l * m) where
  sound h := by
    obtain ⟨u, hu, h⟩ := List.mem_flatMap.1 h
    obtain ⟨v, hv, rfl⟩ := hm.sound h
    obtain ⟨t, ht, rfl⟩ := hl.sound hu
    exact ⟨t ++ v, Language.append_mem_mul ht hv, List.append_assoc ..⟩
  complete h hrest := by
    obtain ⟨u, hu, v, hv, rfl⟩ := Language.mem_mul.1 h
    rw [List.append_assoc]
    refine List.mem_flatMap.2 ⟨_, hl.complete hu ?_, hm.complete hv hrest⟩
    exact hcs.any_head? hdigit hv hrest
  longest s := by
    refine List.pairwise_flatMap.2 ⟨fun u _ => hm.longest u, ?_⟩
    refine ((hl.longest s).and (hstop s)).imp ?_
    rintro a b ⟨hab, hb⟩ x hx y hy
    rw [hm.eq_of_mem hcs ⟨c, hb, hc⟩ hy]
    exact (hm.suffix hx).trans hab

/-! ## Magnitudes -/

theorem mem_magnitudeLetters : c ∈ magnitudeLetters ↔ c.toLower ∈ ['k', 'm', 'b'] := by
  simp only [List.mem_cons, List.not_mem_nil, or_false, magnitudeLetters,
    toLower_eq_iff (d := 'k') 'K' (by decide) (by decide),
    toLower_eq_iff (d := 'm') 'M' (by decide) (by decide),
    toLower_eq_iff (d := 'b') 'B' (by decide) (by decide)]
  tauto

theorem eqIgnoringCase_iff {t w : Text} :
    eqIgnoringCase t w ↔ t.map Char.toLower = w.map Char.toLower := beq_iff_eq

theorem dropPrefixIgnoringCase?_eq_some_iff {w : Text} :
    dropPrefixIgnoringCase? w s = some rest ↔ ∃ t, eqIgnoringCase t w ∧ t ++ rest = s := by
  rw [dropPrefixIgnoringCase?]
  constructor
  · intro h
    split at h
    · next heq =>
      cases h
      exact ⟨s.take w.length, heq, List.take_append_drop _ s⟩
    · cases h
  · rintro ⟨t, heq, rfl⟩
    have hlength : t.length = w.length := by
      simpa using congrArg List.length (eqIgnoringCase_iff.1 heq)
    rw [← hlength, List.take_left, List.drop_left, if_pos heq]

theorem eqIgnoringCase_singleton {d : Char} (hd : d.toLower = d) :
    eqIgnoringCase t [d] ↔ ∃ c, c.toLower = d ∧ t = [c] := by
  rw [eqIgnoringCase_iff, List.map_singleton, hd]
  rcases t with _ | ⟨c, _ | ⟨c', t⟩⟩ <;> simp

theorem mem_magnitude : t ∈ magnitude ↔
    (∃ w ∈ magnitudeWords, eqIgnoringCase t w) ∨ ∃ c ∈ magnitudeLetters, t = [c] := by
  have hk : eqIgnoringCase t "k".toList ↔ _ := eqIgnoringCase_singleton (d := 'k') rfl
  have hm : eqIgnoringCase t "m".toList ↔ _ := eqIgnoringCase_singleton (d := 'm') rfl
  have hb : eqIgnoringCase t "b".toList ↔ _ := eqIgnoringCase_singleton (d := 'b') rfl
  have hmem : t ∈ magnitude ↔
      ∃ w ∈ ["billion", "million", "kilo", "k", "m", "b"], eqIgnoringCase t w.toList := Iff.rfl
  rw [hmem]
  simp only [List.mem_cons, List.not_mem_nil, or_false, magnitudeWords, mem_magnitudeLetters,
    or_and_right, exists_or, exists_eq_left, hk, hm, hb, or_assoc]

theorem afterMagnitude_eq (s : Text) : afterMagnitude s =
    magnitudeWords.filterMap (dropPrefixIgnoringCase? · s) ++
      if s.head?.any magnitudeLetters.contains then [s.drop 1] else [] := by
  cases s <;> rfl

theorem mem_afterMagnitude : rest ∈ afterMagnitude s ↔ ∃ t ∈ magnitude, t ++ rest = s := by
  have hletter : rest ∈ (if s.head?.any magnitudeLetters.contains then [s.drop 1] else []) ↔
      ∃ c ∈ magnitudeLetters, c :: rest = s := by
    cases s with
    | nil => simp
    | cons c s => by_cases hc : c ∈ magnitudeLetters <;> simp [hc, eq_comm]
  rw [afterMagnitude_eq, List.mem_append, hletter, List.mem_filterMap]
  simp only [dropPrefixIgnoringCase?_eq_some_iff, mem_magnitude]
  constructor
  · rintro (⟨w, hw, t, ht, rfl⟩ | ⟨c, hc, rfl⟩)
    · exact ⟨t, .inl ⟨w, hw, ht⟩, rfl⟩
    · exact ⟨[c], .inr ⟨c, hc, rfl⟩, rfl⟩
  · rintro ⟨t, ⟨w, hw, ht⟩ | ⟨c, hc, rfl⟩, rfl⟩
    · exact .inl ⟨w, hw, t, ht, rfl⟩
    · exact .inr ⟨c, hc, rfl⟩

/-- The words for magnitudes stand in the order of their lengths, and the letters come last. -/
theorem pairwise_afterMagnitude (s : Text) : (afterMagnitude s).Pairwise (· <:+ ·) := by
  have hdrop : ∀ {w u : Text}, dropPrefixIgnoringCase? w s = some u → u = s.drop w.length := by
    intro w u h
    rw [dropPrefixIgnoringCase?] at h
    split at h
    · exact (Option.some.inj h).symm
    · cases h
  have hlengths : magnitudeWords.Pairwise fun v w => w.length ≤ v.length := by decide
  have hpos : ∀ w ∈ magnitudeWords, 1 ≤ w.length := by decide
  rw [afterMagnitude_eq]
  refine List.pairwise_append.2 ⟨hlengths.filterMap _ ?_, ?_, ?_⟩
  · intro v w hle a ha b hb
    rw [hdrop ha, hdrop hb]
    exact List.drop_suffix_drop_left s hle
  · split
    · exact List.pairwise_singleton _ _
    · exact .nil
  · intro a ha b hb
    obtain ⟨w, hw, ha⟩ := List.mem_filterMap.1 ha
    split at hb
    · rw [List.mem_singleton.1 hb, hdrop ha]
      exact List.drop_suffix_drop_left s (hpos w hw)
    · cases hb

theorem reads_magnitude : Reads afterMagnitude magnitude where
  sound := mem_afterMagnitude.1
  complete ht _ := mem_afterMagnitude.2 ⟨_, ht, rfl⟩
  longest := pairwise_afterMagnitude

theorem exists_head?_of_mem_magnitude (ht : t ∈ magnitude) :
    ∃ c ∈ t.head?, c ∈ magnitudeLetters := by
  obtain ⟨w, hw, heq⟩ := ht
  have hwords : ["billion", "million", "kilo", "k", "m", "b"].all fun w =>
      w.toList.head?.any (['k', 'm', 'b'].contains ·.toLower) := by decide
  obtain ⟨d, hd, hletter⟩ := (Option.any_eq_true ..).1 (List.all_eq_true.1 hwords w hw)
  have hhead := congrArg List.head? (eqIgnoringCase_iff.1 heq)
  rw [List.head?_map, List.head?_map, Option.mem_def.1 hd, Option.map_some] at hhead
  obtain ⟨c, hc, hlow⟩ := Option.map_eq_some_iff.1 hhead
  exact ⟨c, hc, mem_magnitudeLetters.2 (hlow ▸ List.contains_iff_mem.1 hletter)⟩

theorem beginsWith_magnitude : BeginsWith magnitudeLetters magnitude := by
  intro t ht c hc
  obtain ⟨d, hd, hletter⟩ := exists_head?_of_mem_magnitude ht
  exact Option.mem_unique hc hd ▸ hletter

/-! ## Suffixes -/

theorem mem_suffix : t ∈ suffix ↔
    t = [] ∨ t ∈ magnitude ∨ ∃ c, (c = ' ' ∨ c = '\t') ∧ ∃ u ∈ magnitude, t = c :: u := by
  rw [suffix, mem_optional]
  refine or_congr_right ?_
  simp only [Language.mem_mul, mem_optional, Language.mem_add, mem_sign]
  constructor
  · rintro ⟨b, rfl | rfl | rfl, u, hu, rfl⟩
    · exact .inl hu
    · exact .inr ⟨' ', .inl rfl, u, hu, rfl⟩
    · exact .inr ⟨'\t', .inr rfl, u, hu, rfl⟩
  · rintro (ht | ⟨c, rfl | rfl, u, hu, rfl⟩)
    · exact ⟨[], .inl rfl, t, ht, rfl⟩
    · exact ⟨[' '], .inr (.inl rfl), u, hu, rfl⟩
    · exact ⟨['\t'], .inr (.inr rfl), u, hu, rfl⟩

theorem beginsWith_suffix : BeginsWith (' ' :: '\t' :: magnitudeLetters) suffix :=
  ((((beginsWith_sign ' ').add (beginsWith_sign '\t')).optional).mul beginsWith_magnitude).optional

/-- True for the characters that may stand between a figure and its magnitude. -/
def isGap (c : Char) : Bool := c = ' ' || c = '\t'

theorem isGap_iff : isGap c ↔ c = ' ' ∨ c = '\t' := by
  simp [isGap]

theorem afterSuffix_eq (s : Text) : afterSuffix s =
    (if s.head?.any isGap then afterMagnitude (s.drop 1) else []) ++ (afterMagnitude s ++ [s]) := by
  rw [← List.append_assoc]
  cases s <;> rfl

theorem mem_afterSuffix : rest ∈ afterSuffix s ↔ ∃ t ∈ suffix, t ++ rest = s := by
  have hgap : rest ∈ (if s.head?.any isGap then afterMagnitude (s.drop 1) else []) ↔
      ∃ c, (c = ' ' ∨ c = '\t') ∧ ∃ u ∈ magnitude, c :: u ++ rest = s := by
    simp only [← isGap_iff]
    constructor
    · intro h
      split at h
      · next hs =>
        obtain ⟨c, hc, hgap⟩ := (Option.any_eq_true ..).1 hs
        obtain ⟨s, rfl⟩ := List.head?_eq_some_iff.1 hc
        obtain ⟨u, hu, rfl⟩ := mem_afterMagnitude.1 h
        exact ⟨c, hgap, u, hu, rfl⟩
      · cases h
    · rintro ⟨c, hc, u, hu, rfl⟩
      rw [if_pos (by simpa using hc)]
      exact mem_afterMagnitude.2 ⟨u, hu, rfl⟩
  rw [afterSuffix_eq, List.mem_append, List.mem_append, List.mem_singleton, mem_afterMagnitude,
    hgap]
  simp only [mem_suffix]
  constructor
  · rintro (⟨c, hc, u, hu, rfl⟩ | ⟨u, hu, rfl⟩ | rfl)
    · exact ⟨c :: u, .inr (.inr ⟨c, hc, u, hu, rfl⟩), rfl⟩
    · exact ⟨u, .inr (.inl hu), rfl⟩
    · exact ⟨[], .inl rfl, rfl⟩
  · rintro ⟨t, rfl | ht | ⟨c, hc, u, hu, rfl⟩, rfl⟩
    · exact .inr (.inr rfl)
    · exact .inr (.inl ⟨t, ht, rfl⟩)
    · exact .inl ⟨c, hc, u, hu, rfl⟩

theorem pairwise_afterSuffix (s : Text) : (afterSuffix s).Pairwise (· <:+ ·) := by
  have hself : (afterMagnitude s ++ [s]).Pairwise (· <:+ ·) := by
    refine List.pairwise_append.2 ⟨pairwise_afterMagnitude s, List.pairwise_singleton _ _, ?_⟩
    intro a ha b hb
    rw [List.mem_singleton.1 hb]
    exact suffix_of_mem_afterMagnitude ha
  rw [afterSuffix_eq]
  split
  · next hgap =>
    -- after a space nothing is read but the space and what follows it
    refine List.pairwise_append.2 ⟨pairwise_afterMagnitude _, hself, fun a ha b hb => ?_⟩
    have hletter : ∃ c ∈ s.head?, c ∉ magnitudeLetters := by
      obtain ⟨c, hc, hgap⟩ := (Option.any_eq_true ..).1 hgap
      refine ⟨c, hc, ?_⟩
      rcases isGap_iff.1 hgap with rfl | rfl <;> decide
    have hb : b = s := by
      rcases List.mem_append.1 hb with hb | hb
      · exact reads_magnitude.eq_of_mem beginsWith_magnitude hletter hb
      · exact List.mem_singleton.1 hb
    rw [hb]
    exact (suffix_of_mem_afterMagnitude ha).trans (List.drop_suffix 1 s)
  · exact hself

theorem reads_suffix : Reads afterSuffix suffix where
  sound := mem_afterSuffix.1
  complete ht _ := mem_afterSuffix.2 ⟨_, ht, rfl⟩
  longest := pairwise_afterSuffix

/-! ## The parts of a figure -/

theorem self_mem_afterParenthesis (s : Text) : s ∈ afterParenthesis s := by
  unfold afterParenthesis
  split <;> simp

/-- A parenthesis that is left is left by the second way to read. -/
theorem pairwise_afterParenthesis (s : Text) :
    (afterParenthesis s).Pairwise fun a b => a <:+ b ∧ b.head? = some ')' := by
  unfold afterParenthesis
  split <;> simp

theorem reads_parenthesis : Reads afterParenthesis (optional (sign ')')) where
  sound h := by
    unfold afterParenthesis at h
    split at h
    · rcases List.mem_cons.1 h with rfl | h
      · exact ⟨[')'], .inr rfl, rfl⟩
      · exact ⟨[], .inl rfl, List.mem_singleton.1 h⟩
    · exact ⟨[], .inl rfl, List.mem_singleton.1 h⟩
  complete {t rest} ht _ := by
    rcases mem_optional.1 ht with rfl | ht
    · exact self_mem_afterParenthesis rest
    · rw [mem_sign.1 ht]
      exact List.mem_cons_self
  longest s := (pairwise_afterParenthesis s).imp And.left

theorem takeWhile_append_of_digits (ht : ∀ c ∈ t, c.isDigit)
    (hrest : rest.head?.any Char.isDigit = false) : (t ++ rest).takeWhile Char.isDigit = t := by
  rw [List.takeWhile_append_of_pos ht]
  cases rest with
  | nil => exact List.append_nil t
  | cons c rest => rw [List.takeWhile_cons_of_neg (by simpa using hrest), List.append_nil]

theorem dropWhile_append_of_digits (ht : ∀ c ∈ t, c.isDigit)
    (hrest : rest.head?.any Char.isDigit = false) : (t ++ rest).dropWhile Char.isDigit = rest := by
  rw [← drop_length_takeWhile, takeWhile_append_of_digits ht hrest, List.drop_left]

theorem self_mem_afterFraction {isDigit : Char → Bool} (s : Text) :
    s ∈ afterFraction isDigit s := by
  unfold afterFraction
  split
  · split <;> simp
  · simp

theorem pairwise_afterFraction {isDigit : Char → Bool} (s : Text) :
    (afterFraction isDigit s).Pairwise fun a b => a <:+ b ∧ b.head? = some '.' := by
  unfold afterFraction
  split
  · next u =>
    split
    · simpa using (List.dropWhile_suffix _).trans (List.suffix_cons '.' u)
    · exact List.pairwise_singleton _ _
  · exact List.pairwise_singleton _ _

theorem reads_fraction : Reads (afterFraction Char.isDigit) fraction where
  sound h := by
    unfold afterFraction at h
    split at h
    · next u =>
      split at h
      · next hu =>
        rcases List.mem_cons.1 h with rfl | h
        · refine ⟨'.' :: u.takeWhile Char.isDigit, .inr ?_, ?_⟩
          · refine Language.append_mem_mul (a := ['.']) rfl ⟨fun c => List.mem_takeWhile_imp, ?_⟩
            obtain ⟨c, hc, hdigit⟩ := (Option.any_eq_true ..).1 hu
            obtain ⟨u, rfl⟩ := List.head?_eq_some_iff.1 hc
            simp [hdigit]
          · rw [List.cons_append, List.takeWhile_append_dropWhile]
        · exact ⟨[], .inl rfl, List.mem_singleton.1 h⟩
      · exact ⟨[], .inl rfl, List.mem_singleton.1 h⟩
    · exact ⟨[], .inl rfl, List.mem_singleton.1 h⟩
  complete {t rest} ht hrest := by
    rcases mem_optional.1 ht with rfl | ht
    · exact self_mem_afterFraction rest
    · obtain ⟨p, hp, u, ⟨hdigits, hlength⟩, rfl⟩ := Language.mem_mul.1 ht
      obtain rfl := mem_sign.1 hp
      have hsome : (u ++ rest).head?.any Char.isDigit := by
        obtain ⟨c, u, rfl⟩ := List.exists_cons_of_length_pos hlength
        simpa using hdigits c List.mem_cons_self
      rw [List.append_assoc, List.singleton_append, afterFraction, if_pos hsome,
        dropWhile_append_of_digits hdigits hrest]
      exact List.mem_cons_self
  longest s := (pairwise_afterFraction s).imp And.left

theorem self_mem_afterGroups {isDigit : Char → Bool} (s : Text) : s ∈ afterGroups isDigit s := by
  unfold afterGroups
  split
  · split <;> simp
  · simp

theorem pairwise_afterGroups {isDigit : Char → Bool} (s : Text) :
    (afterGroups isDigit s).Pairwise fun a b => a <:+ b ∧ b.head? = some ',' := by
  fun_induction afterGroups isDigit s with
  | case1 a b c s _ ih =>
    refine List.pairwise_append.2 ⟨ih, List.pairwise_singleton _ _, fun x hx y hy => ?_⟩
    rw [List.mem_singleton.1 hy]
    exact ⟨(suffix_of_mem_afterGroups hx).trans ⟨[',', a, b, c], rfl⟩, rfl⟩
  | case2 => exact List.pairwise_singleton _ _
  | case3 => exact List.pairwise_singleton _ _

theorem mem_group : t ∈ group ↔
    ∃ a b c : Char, (a.isDigit ∧ b.isDigit ∧ c.isDigit) ∧ t = [',', a, b, c] := by
  simp only [group, Language.mem_mul, mem_sign, mem_digits, Set.mem_singleton_iff,
    List.length_eq_three]
  constructor
  · rintro ⟨_, rfl, _, ⟨hdigits, a, b, c, rfl⟩, rfl⟩
    exact ⟨a, b, c, by simpa using hdigits, rfl⟩
  · rintro ⟨a, b, c, hdigits, rfl⟩
    exact ⟨[','], rfl, [a, b, c], ⟨by simpa using hdigits, a, b, c, rfl⟩, rfl⟩

theorem beginsWith_groups : BeginsWith [','] group∗ := by
  intro t ht c hc
  obtain ⟨gs, rfl, hgs⟩ := Language.mem_kstar.1 ht
  cases gs with
  | nil => cases hc
  | cons g gs =>
    obtain ⟨x, y, z, -, rfl⟩ := mem_group.1 (hgs g List.mem_cons_self)
    simpa using hc.symm

theorem reads_groups : Reads (afterGroups Char.isDigit) group∗ where
  sound {s rest} h := by
    fun_induction afterGroups Char.isDigit s with
    | case1 a b c s hd ih =>
      rcases List.mem_append.1 h with h | h
      · obtain ⟨t, ht, rfl⟩ := ih h
        have hgroup : [',', a, b, c] ∈ group := by
          simp only [Bool.and_eq_true] at hd
          exact mem_group.2 ⟨a, b, c, ⟨hd.1.1.1, hd.1.1.2, hd.1.2⟩, rfl⟩
        refine ⟨[',', a, b, c] ++ t, ?_, rfl⟩
        rw [← Language.one_add_self_mul_kstar_eq_kstar]
        exact .inr (Language.append_mem_mul hgroup ht)
      · exact ⟨[], Language.nil_mem_kstar _, List.mem_singleton.1 h⟩
    | case2 => exact ⟨[], Language.nil_mem_kstar _, List.mem_singleton.1 h⟩
    | case3 => exact ⟨[], Language.nil_mem_kstar _, List.mem_singleton.1 h⟩
  complete {t rest} ht hrest := by
    obtain ⟨gs, rfl, hgs⟩ := Language.mem_kstar.1 ht
    clear ht
    induction gs with
    | nil => exact self_mem_afterGroups rest
    | cons g gs ih =>
      rw [List.forall_mem_cons] at hgs
      obtain ⟨a, b, c, ⟨ha, hb, hc⟩, rfl⟩ := mem_group.1 hgs.1
      have hnext := beginsWith_groups.any_head? (by decide) (Language.join_mem_kstar hgs.2) hrest
      have hdigits : (a.isDigit && b.isDigit && c.isDigit &&
          !(gs.flatten ++ rest).head?.any Char.isDigit) = true := by
        rw [ha, hb, hc, hnext]
        rfl
      rw [List.flatten_cons, List.append_assoc]
      show rest ∈ afterGroups Char.isDigit (',' :: a :: b :: c :: (gs.flatten ++ rest))
      rw [afterGroups, if_pos hdigits]
      exact List.mem_append_left _ (ih hgs.2)
  longest s := (pairwise_afterGroups s).imp And.left

end MarkdownPrep.Amount
