import MarkdownPrep.Proofs.Stash.Blind

/-!
# Delimiters around tokens

The recognisers of delimited stretches (`blind_enclosed`), of inline code (`blind_code`) and of
dollar spans (`blind_spans`) read over tokens, of which they see no character. So they do not see
the dress of a layer.
-/

namespace MarkdownPrep

/-! ## Reading over characters that do not matter -/

namespace Text

/-- No stop begins where its first character does not stand. -/
theorem upTo_append_of_not_mem {c : Char} {u : Text} (hc : c ∉ u) (stop s : Text) :
    upTo (c :: stop) (u ++ s) = (upTo (c :: stop) s).map (u ++ ·) := by
  induction u with
  | nil => simp
  | cons d u ih =>
    rw [List.mem_cons, not_or] at hc
    rw [List.cons_append, upTo, if_neg, ih hc.2, Option.map_map]
    · rfl
    · intro hp
      exact hc.1 (List.cons_prefix_cons.1 (List.isPrefixOf_iff_prefix.1 hp)).1

end Text

/-- A span goes on over characters that are no dollars and end no line. -/
theorem Dollar.interior?_append_of_not_mem {u : Text} {c : Char} (hdollar : '$' ∉ u)
    (hline : '\n' ∉ u) (hlast : u.getLast? = some c) (before : Char) (s : Text) :
    interior? before (u ++ s) = (interior? c s).map (u ++ ·) := by
  induction u generalizing before with
  | nil => cases hlast
  | cons d u ih =>
    rw [List.mem_cons, not_or] at hdollar hline
    rw [List.cons_append, interior?, if_neg (Ne.symm hline.1), if_neg (by simp [Ne.symm hdollar.1])]
    rcases eq_or_ne u [] with rfl | hne
    · obtain rfl : d = c := Option.some.inj hlast
      rfl
    · rw [List.getLast?_cons_of_ne_nil hne] at hlast
      rw [ih hdollar.2 hline.2 hlast, Option.map_map]
      rfl

namespace Stash

/-! ## Delimited stretches -/

/-- What stands before the first stop is the same in every dress. -/
theorem exists_upTo {stop : Text} (h : IsDelimiter stop) (as : Layer) :
    (∀ d : Dress, d.Fits as → Text.upTo stop (d.spell as) = none) ∨
      ∃ bs cs, as = bs ++ (plain stop ++ cs) ∧
        ∀ d : Dress, d.Fits as → Text.upTo stop (d.spell as) = some (d.spell bs) := by
  obtain ⟨c, stop, rfl⟩ := List.exists_cons_of_ne_nil h.1
  have hc : Plain c := plain_of_isSign (h.2 c List.mem_cons_self)
  have hfront : ∀ (d : Dress) (as : Layer), isPrivateUse d.sentinel →
      ((c :: stop).isPrefixOf (d.spell as) ↔ plain (c :: stop) <+: as) := fun d as hd => by
    rw [List.isPrefixOf_iff_prefix, Dress.prefix_spell_iff (not_mem_of_allSigns hd h.2)]
  induction as with
  | nil => exact .inl fun _ _ => rfl
  | cons a as ih =>
    by_cases hp : plain (c :: stop) <+: a :: as
    · obtain ⟨cs, hcs⟩ := hp
      refine .inr ⟨[], cs, hcs.symm, fun d hd => ?_⟩
      obtain ⟨rfl, -⟩ := List.cons.inj hcs
      rw [Dress.spell_char_cons, Text.upTo, if_pos, Dress.spell_nil]
      exact (hfront d (.char c :: as) hd.1).2 ⟨cs, hcs⟩
    have hstep : ∀ d : Dress, d.Fits (a :: as) → Text.upTo (c :: stop) (d.spell (a :: as)) =
        (Text.upTo (c :: stop) (d.spell as)).map (d.spell [a] ++ ·) := by
      intro d hd
      have hno := mt (hfront d (a :: as) hd.1).1 hp
      cases a with
      | char b =>
        rw [Dress.spell_char_cons] at hno
        rw [Dress.spell_char_cons, Text.upTo, if_neg hno]
        rfl
      | token kind i =>
        rw [Dress.spell_token_cons, Text.upTo_append_of_not_mem (hc.not_mem_token hd.1 _ _),
          Dress.spell_token_cons, Dress.spell_nil, List.append_nil]
    rcases ih with hnone | ⟨bs, cs, rfl, hsome⟩
    · exact .inl fun d hd => by rw [hstep d hd, hnone d hd.tail]; rfl
    · refine .inr ⟨a :: bs, cs, rfl, fun d hd => ?_⟩
      rw [hstep d hd, hsome d hd.tail, Option.map_some, ← Dress.spell_append]
      rfl

/-- **What stands between two delimiters is seen in every dress.** -/
theorem blind_enclosed {first last : Text} (hf : IsDelimiter first) (hl : IsDelimiter last) :
    Blind (fun m => ∃ bs, m = plain first ++ (bs ++ plain last))
      (fun _ => .enclosed first last) := by
  obtain ⟨c, first, rfl⟩ := List.exists_cons_of_ne_nil hf.1
  refine blind_of_head (plain_of_isSign (hf.2 c List.mem_cons_self))
    (Recogniser.honest_enclosed hf.1 last) (fun b s ps hps => ?_) fun b as => ?_
  · rw [Recogniser.enclosed] at hps
    split at hps
    · next hp =>
      obtain ⟨u, rfl⟩ := List.isPrefixOf_iff_prefix.1 hp
      rfl
    · cases hps
  have hfront : ∀ d : Dress, d.Fits (b.toList ++ .char c :: as) →
      ((c :: first).isPrefixOf (c :: d.spell as) ↔ plain first <+: as) := fun d hd => by
    rw [List.isPrefixOf_iff_prefix, List.cons_prefix_cons, and_iff_right rfl,
      Dress.prefix_spell_iff fun hm => not_mem_of_allSigns hd.1 hf.2 (List.mem_cons_of_mem c hm)]
  by_cases hp : plain first <+: as
  · obtain ⟨as, rfl⟩ := hp
    have hopen : ∀ d : Dress, d.Fits (b.toList ++ .char c :: (plain first ++ as)) →
        Recogniser.enclosed (c :: first) last (d.last b) (c :: d.spell (plain first ++ as)) =
          (Text.upTo last (d.spell as)).map fun body => [.found (c :: first ++ body ++ last)] := by
      intro d hd
      rw [Recogniser.enclosed, if_pos ((hfront d hd).2 (List.prefix_append _ _)),
        Dress.spell_append, Dress.spell_plain, ← List.cons_append, List.drop_left]
    rcases exists_upTo hl as with hnone | ⟨bs, cs, rfl, hsome⟩
    · exact .inl fun d hd => by rw [hopen d hd, hnone d hd.right.tail.right, Option.map_none]
    · refine .inr ⟨plain first ++ (bs ++ plain last), cs, by simp, ⟨bs, rfl⟩, fun d hd => ?_⟩
      rw [hopen d hd, hsome d hd.right.tail.right, Option.map_some]
      simp
  · exact .inl fun d hd => by rw [Recogniser.enclosed, if_neg (mt (hfront d hd).1 hp)]

/-! ## Inline code -/

/-- **Inline code is seen in every dress.** -/
theorem blind_code : Blind (fun _ => True) fun _ => Verbatim.codeRecogniser := by
  refine blind_of_head (plain_of_isEdge (by decide : isEdge '`')) Verbatim.honest_codeRecogniser
    (fun b s ps hps => ?_) fun b as => ?_
  · unfold Verbatim.codeRecogniser at hps
    split at hps
    · rfl
    · cases hps
  obtain ⟨bs, cs, rfl, hcs, hd⟩ := exists_takeWhile (plain_of_isEdge (by decide : isEdge '`')) as
  have hread : ∀ d : Dress, isPrivateUse d.sentinel →
      Verbatim.codeRecogniser (d.last b) ('`' :: d.spell (bs ++ cs)) =
        if bs ≠ [] ∧ cs ≠ [] then some [.found ('`' :: d.spell bs ++ ['`'])] else none := by
    intro d hS
    have htake := (hd d hS).1
    have hbs : d.spell bs ≠ [] ↔ bs ≠ [] := not_congr d.spell_eq_nil_iff
    have hcs : (d.spell (bs ++ cs)).length ≠ (d.spell bs).length ↔ cs ≠ [] := by
      rw [ne_eq cs, ← d.spell_eq_nil_iff, ← List.length_eq_zero_iff, Dress.spell_append,
        List.length_append]
      omega
    simp only [Verbatim.codeRecogniser, htake, Bool.and_eq_true, decide_eq_true_eq, hbs, hcs]
  by_cases hcond : bs ≠ [] ∧ cs ≠ []
  · obtain ⟨e, cs, rfl⟩ := List.exists_cons_of_ne_nil hcond.2
    obtain rfl := hcs e rfl
    refine .inr ⟨bs ++ [.char '`'], cs, by simp, trivial, fun d hfits => ?_⟩
    rw [hread d hfits.1, if_pos hcond]
    simp
  · exact .inl fun d hfits => by rw [hread d hfits.1, if_neg hcond]

/-! ## Dollar spans -/

/-- What a span goes on with is the same in every dress, given whether a backslash stands before. -/
def GoesOnAlike (escaped : Bool) (as : Layer) : Prop :=
  (∀ (d : Dress) (c : Char), d.Fits as → (c = '\\' ↔ escaped) →
    Dollar.interior? c (d.spell as) = none) ∨
    ∃ bs cs, as = bs ++ .char '$' :: cs ∧ ∀ (d : Dress) (c : Char), d.Fits as →
      (c = '\\' ↔ escaped) → Dollar.interior? c (d.spell as) = some (d.spell bs)

/-- An atom that does not end the span, with what it tells of the next one. -/
theorem GoesOnAlike.cons {escaped escaped' : Bool} {a : Atom} {as : Layer}
    (h : GoesOnAlike escaped' as)
    (hstep : ∀ (d : Dress) (c : Char), d.Fits (a :: as) → (c = '\\' ↔ escaped) →
      ∃ c', (c' = '\\' ↔ escaped') ∧ Dollar.interior? c (d.spell (a :: as)) =
        (Dollar.interior? c' (d.spell as)).map (d.spell [a] ++ ·)) :
    GoesOnAlike escaped (a :: as) := by
  rcases h with hnone | ⟨bs, cs, rfl, hsome⟩
  · refine .inl fun d c hd hc => ?_
    obtain ⟨c', hc', heq⟩ := hstep d c hd hc
    rw [heq, hnone d c' hd.tail hc', Option.map_none]
  · refine .inr ⟨a :: bs, cs, rfl, fun d c hd hc => ?_⟩
    obtain ⟨c', hc', heq⟩ := hstep d c hd hc
    rw [heq, hsome d c' hd.tail hc', Option.map_some, ← Dress.spell_append]
    rfl

/-- A dollar that is not escaped ends the span, or there is none. -/
theorem goesOnAlike_dollar (as : Layer) : GoesOnAlike false (.char '$' :: as) := by
  have hplain : Plain '$' := plain_of_isSign (by decide)
  have hread : ∀ (d : Dress) (c : Char), d.Fits (.char '$' :: as) → (c = '\\' ↔ false) →
      Dollar.interior? c (d.spell (.char '$' :: as)) =
        if as.head? = some (.char '$') then none else some [] := by
    intro d c hd hc
    rw [Dress.spell_char_cons, Dollar.interior?, if_neg (by decide), if_pos (by simpa using hc)]
    simp only [Dress.head?_spell, Dress.last_eq_some_iff (hplain.ne hd.1)]
  by_cases hnext : as.head? = some (.char '$')
  · exact .inl fun d c hd hc => by rw [hread d c hd hc, if_pos hnext]
  · exact .inr ⟨[], as, rfl, fun d c hd hc => by rw [hread d c hd hc, if_neg hnext]; rfl⟩

theorem goesOnAlike (escaped : Bool) (as : Layer) : GoesOnAlike escaped as := by
  induction as generalizing escaped with
  | nil => exact .inl fun _ _ _ _ => rfl
  | cons a as ih =>
    cases a with
    | token kind i =>
      refine (ih false).cons fun d c hd _ => ⟨d.sentinel, ?_, ?_⟩
      · have hplain : Plain '\\' := plain_of_isSign (by decide)
        simpa using (hplain.ne hd.1).symm
      · have hdollar : Plain '$' := plain_of_isSign (by decide)
        have hline : Plain '\n' := plain_of_isSign (by decide)
        have hlast : (token d.sentinel kind (d.number kind i)).getLast? = some d.sentinel :=
          List.getLast?_concat
        rw [Dress.spell_token_cons, Dollar.interior?_append_of_not_mem
          (hdollar.not_mem_token hd.1 _ _) (hline.not_mem_token hd.1 _ _) hlast,
          Dress.spell_token_cons, Dress.spell_nil, List.append_nil]
    | char b =>
      by_cases hline : b = '\n'
      · exact .inl fun d c _ _ => by rw [Dress.spell_char_cons, Dollar.interior?, if_pos hline]
      by_cases hdollar : b = '$' ∧ escaped = false
      · obtain ⟨rfl, rfl⟩ := hdollar
        exact goesOnAlike_dollar as
      · refine (ih (b = '\\')).cons fun d c hd hc => ⟨b, by simp, ?_⟩
        rw [Dress.spell_char_cons, Dollar.interior?, if_neg hline, if_neg]
        · rfl
        · simpa [hc] using hdollar

/-- **Dollar spans are seen in every dress.** -/
theorem blind_spans :
    Blind (fun m => ∃ bs, m = .char '$' :: (bs ++ [.char '$'])) fun _ => Dollar.recogniser := by
  refine blind_of_head (plain_of_isSign (by decide : isSign '$')) Dollar.honest_recogniser
    (fun b s ps hps => ?_) fun b as => ?_
  · unfold Dollar.recogniser at hps
    split at hps
    · rfl
    · cases hps
  have hlast : ∀ (d : Dress) (o : Option Atom) (c : Char), isSign c → isPrivateUse d.sentinel →
      (d.last o = some c ↔ o = some (.char c)) := fun d o c hc hS =>
    Dress.last_eq_some_iff ((plain_of_isSign hc).ne hS)
  by_cases hstop : b = some (.char '\\') ∨ b = some (.char '$') ∨ as.head? = some (.char '$')
  · refine .inl fun d hd => ?_
    rw [Dollar.recogniser, if_pos]
    simpa [hlast d _ _ _ hd.1, Dress.head?_spell, isSign, or_assoc] using hstop
  · have hopen : ∀ d : Dress, d.Fits (b.toList ++ .char '$' :: as) →
        Dollar.recogniser (d.last b) ('$' :: d.spell as) =
          (Dollar.interior? '$' (d.spell as)).map fun body =>
            [.found ('$' :: body ++ ['$'])] := fun d hd => by
      rw [Dollar.recogniser, if_neg]
      simpa [hlast d _ _ _ hd.1, Dress.head?_spell, isSign, or_assoc] using hstop
    rcases goesOnAlike false as with hnone | ⟨bs, cs, rfl, hsome⟩
    · refine .inl fun d hd => ?_
      rw [hopen d hd, hnone d '$' hd.right.tail (by simp), Option.map_none]
    · refine .inr ⟨bs ++ [.char '$'], cs, by simp, ⟨bs, rfl⟩, fun d hd => ?_⟩
      rw [hopen d hd, hsome d '$' hd.right.tail (by simp), Option.map_some]
      simp

end Stash

end MarkdownPrep
