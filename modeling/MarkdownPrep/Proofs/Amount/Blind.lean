import MarkdownPrep.Proofs.Amount.Read
import MarkdownPrep.Proofs.Stash.Blind

/-!
# Amounts around tokens

An amount is read up to where a token stands: each reader leaves the token and what follows it as
they are (`Stops`), so the amounts before a token are those of the text that ends there
(`recogniser_append`). So amounts are found in every dress alike (`blind_amounts`).
-/

namespace MarkdownPrep.Amount

open Text

section
variable {z : Text} (hz : Stops z)
include hz

/-! ## The parts of an amount -/

theorem afterGroups_append {isDigit : Char → Bool} (hp : ∀ c, isPrivateUse c → isDigit c = false)
    (s : Text) : afterGroups isDigit (s ++ z) = (afterGroups isDigit s).map (· ++ z) := by
  fun_induction afterGroups isDigit s with
  | case1 a b c s hd ih =>
    have hd' : (isDigit a && isDigit b && isDigit c && !(s ++ z).head?.any isDigit) = true := by
      rw [hz.any_head? hp]
      exact hd
    simp only [List.cons_append, afterGroups, hd', if_true, ih, List.map_append, List.map_cons,
      List.map_nil]
  | case2 a b c s hd =>
    have hd' : ¬ (isDigit a && isDigit b && isDigit c && !(s ++ z).head?.any isDigit) = true := by
      rw [hz.any_head? hp]
      exact hd
    simp only [List.cons_append, afterGroups, hd', List.map_cons, List.map_nil]
    rfl
  | case3 s hs =>
    show afterGroups isDigit (s ++ z) = [s ++ z]
    rw [afterGroups.eq_def]
    split
    · next a b c t heq =>
      rw [if_neg, heq]
      intro hd
      simp only [Bool.and_eq_true] at hd
      obtain ⟨⟨⟨ha, hb⟩, hc⟩, -⟩ := hd
      -- a character of the group would be the first one of `z`
      have hnot : ∀ (d : Char) (u : Text), isDigit d → z ≠ d :: u := by
        rintro d u hd rfl
        rw [hp d (hz d rfl)] at hd
        cases hd
      rcases s with _ | ⟨x, _ | ⟨y, _ | ⟨w, _ | ⟨v, s⟩⟩⟩⟩
      · exact hz.ne_cons (by decide) _ heq
      · exact hnot a _ ha (List.cons.inj heq).2
      · exact hnot b _ hb (List.cons.inj (List.cons.inj heq).2).2
      · exact hnot c _ hc (List.cons.inj (List.cons.inj (List.cons.inj heq).2).2).2
      · exact hs y w v s (by rw [(List.cons.inj heq).1])
    · rfl

theorem afterFraction_append {isDigit : Char → Bool} (hp : ∀ c, isPrivateUse c → isDigit c = false)
    (s : Text) : afterFraction isDigit (s ++ z) = (afterFraction isDigit s).map (· ++ z) := by
  rcases s with _ | ⟨c, s⟩
  · show afterFraction isDigit z = [z]
    unfold afterFraction
    split
    · next t => exact absurd rfl (hz.ne_cons (by decide) t)
    · rfl
  · by_cases hc : c = '.'
    · subst hc
      rw [List.cons_append, afterFraction, afterFraction, hz.any_head? hp, hz.dropWhile hp]
      split <;> rfl
    · unfold afterFraction
      split
      · next heq => exact absurd (List.cons.inj heq).1 hc
      · split
        · next heq => exact absurd (List.cons.inj heq).1 hc
        · rfl

theorem afterParenthesis_append (s : Text) :
    afterParenthesis (s ++ z) = (afterParenthesis s).map (· ++ z) := by
  rcases s with _ | ⟨c, s⟩
  · show afterParenthesis z = [z]
    unfold afterParenthesis
    split
    · next t => exact absurd rfl (hz.ne_cons (by decide) t)
    · rfl
  · by_cases hc : c = ')'
    · subst hc
      rfl
    · unfold afterParenthesis
      split
      · next heq => exact absurd (List.cons.inj heq).1 hc
      · split
        · next heq => exact absurd (List.cons.inj heq).1 hc
        · rfl

/-- A word in any case is not read out of a private use character. -/
theorem dropPrefixIgnoringCase?_append {word : Text}
    (hw : ∀ c ∈ word, isPrivateUse c.toLower = false) (s : Text) :
    Text.dropPrefixIgnoringCase? word (s ++ z) =
      (Text.dropPrefixIgnoringCase? word s).map (· ++ z) := by
  unfold Text.dropPrefixIgnoringCase?
  by_cases hlen : word.length ≤ s.length
  · rw [List.take_append_of_le_length hlen, List.drop_append_of_le_length hlen]
    split <;> rfl
  · -- a word longer than `s` would go on with the first character of `z`
    have hshort : ¬ Text.eqIgnoringCase (s.take word.length) word := by
      intro h
      have hlength := congrArg List.length (beq_iff_eq.1 h)
      simp only [Text.lower, List.length_map, List.length_take] at hlength
      omega
    rw [if_neg hshort, if_neg]
    · rfl
    intro h
    cases z with
    | nil => exact hshort (by rwa [List.append_nil] at h)
    | cons c z =>
      have hlower : Text.lower ((s ++ c :: z).take word.length) = Text.lower word := beq_iff_eq.1 h
      have hc : c ∈ (s ++ c :: z).take word.length := by
        rw [List.take_append, List.take_of_length_le (by omega)]
        obtain ⟨n, hn⟩ : ∃ n, word.length - s.length = n + 1 := ⟨word.length - s.length - 1, by omega⟩
        rw [hn]
        simp
      have hm : c.toLower ∈ Text.lower word := hlower ▸ List.mem_map_of_mem hc
      obtain ⟨d, hd, he⟩ := List.mem_map.1 hm
      have hprivate : isPrivateUse c := hz c rfl
      have hdl := hw d hd
      rw [he, toLower_of_isPrivateUse hprivate, hprivate] at hdl
      cases hdl

theorem afterMagnitude_append (s : Text) :
    afterMagnitude (s ++ z) = (afterMagnitude s).map (· ++ z) := by
  have hwords : ∀ w ∈ magnitudeWords, Text.dropPrefixIgnoringCase? w (s ++ z) =
      (Text.dropPrefixIgnoringCase? w s).map (· ++ z) := by
    intro w hw
    refine dropPrefixIgnoringCase?_append hz ?_ s
    have hall : ∀ w ∈ magnitudeWords, w.all (!isPrivateUse ·.toLower) := by decide
    simpa using hall w hw
  unfold afterMagnitude
  rw [List.map_append]
  refine congrArg₂ (· ++ ·) ?_ ?_
  · rw [List.map_filterMap]
    exact List.filterMap_congr hwords
  · cases s with
    | cons c s =>
      show (if magnitudeLetters.contains c then [s ++ z] else []) = _
      dsimp only
      split <;> rfl
    | nil =>
      cases z with
      | nil => rfl
      | cons c z =>
        have hc : magnitudeLetters.contains c = false := by
          refine Bool.eq_false_iff.2 fun hm => ?_
          have hletters : magnitudeLetters.all (!isPrivateUse ·) := by decide
          have hno := List.all_eq_true.1 hletters c (List.contains_iff_mem.1 hm)
          rw [hz c rfl] at hno
          cases hno
        show (if magnitudeLetters.contains c then [z] else []) = []
        rw [if_neg (Bool.eq_false_iff.1 hc)]

theorem afterSuffix_append (s : Text) : afterSuffix (s ++ z) = (afterSuffix s).map (· ++ z) := by
  unfold afterSuffix
  rw [List.map_append, List.map_append, afterMagnitude_append hz]
  refine congrArg (· ++ _ ++ _) ?_
  cases s with
  | cons c s =>
    show (if c = ' ' || c = '\t' then afterMagnitude (s ++ z) else []) = _
    dsimp only
    split
    · exact afterMagnitude_append hz s
    · rfl
  | nil =>
    cases z with
    | nil => rfl
    | cons c z =>
      show (if c = ' ' || c = '\t' then afterMagnitude z else []) = []
      rw [if_neg (by simp [hz.head_ne (b := ' ') (by decide), hz.head_ne (b := '\t') (by decide)])]

omit hz in
/-- A reader that stops goes on from where others stopped. -/
theorem flatMap_map_append {g : Text → List Text} (hg : ∀ t, g (t ++ z) = (g t).map (· ++ z))
    (ts : List Text) : (ts.map (· ++ z)).flatMap g = (ts.flatMap g).map (· ++ z) := by
  rw [List.flatMap_map, List.map_flatMap]
  exact List.flatMap_congr fun t _ => hg t

theorem afterGrouped_append (s : Text) :
    afterGrouped (s ++ z) = (afterGrouped s).map (· ++ z) := by
  have hdigit : ∀ c, isPrivateUse c → c.isDigit = false := fun c => not_isDigit_of_isPrivateUse
  rw [afterGrouped, afterGrouped, hz.dropOne (by decide), hz.takeWhile hdigit]
  split
  · rw [List.drop_append_of_le_length (List.takeWhile_prefix _).length_le,
      afterGroups_append hz hdigit, flatMap_map_append fun t => ?_]
    rw [afterFraction_append hz hdigit, flatMap_map_append fun t => ?_]
    rw [afterParenthesis_append hz, flatMap_map_append (afterSuffix_append hz)]
  · rfl

theorem afterPlain_append (s : Text) : afterPlain (s ++ z) = (afterPlain s).map (· ++ z) := by
  have hdigit : ∀ c, isPrivateUse c → c.isDigit = false := fun c => not_isDigit_of_isPrivateUse
  rw [afterPlain, afterPlain, hz.dropOne (by decide), hz.any_head? hdigit, hz.dropWhile hdigit]
  split
  · rw [afterFraction_append hz hdigit, flatMap_map_append (afterSuffix_append hz)]
  · rfl

/-! ## Amounts and ranges -/

theorem find?_map_append (ts : List Text) :
    (ts.map (· ++ z)).find? (!Text.startsWithName ·) =
      (ts.find? (!Text.startsWithName ·)).map (· ++ z) := by
  rw [List.find?_map]
  refine congrArg (Option.map _) (congrArg (List.find? · ts) (funext fun t => ?_))
  exact congrArg (!·) (hz.startsWithName t)

theorem afterAmount?_append (before : Option Char) (s : Text) :
    afterAmount? before (s ++ z) = (afterAmount? before s).map (· ++ z) := by
  have hnone : ∀ s : Text, (∀ t, s ++ z ≠ '$' :: t) → (∀ t, s ++ z ≠ '-' :: '$' :: t) →
      afterAmount? before (s ++ z) = (afterAmount? before s).map (· ++ z) := fun s hd hm => by
    rw [afterAmount?_eq_none before hd hm, afterAmount?_eq_none before]
    · rfl
    · exact fun t he => hd (t ++ z) (by rw [he]; rfl)
    · exact fun t he => hm (t ++ z) (by rw [he]; rfl)
  rcases s with _ | ⟨c, s⟩
  · exact hnone [] (hz.ne_cons (by decide)) fun t => hz.ne_cons (by decide) _
  by_cases hdollar : c = '$'
  · subst hdollar
    rw [List.cons_append, afterAmount?, afterAmount?, afterGrouped_append hz, afterPlain_append hz,
      ← List.map_append, find?_map_append hz]
    split <;> rfl
  by_cases hminus : c = '-' ∧ s.head? = some '$'
  · obtain ⟨rfl, hs⟩ := hminus
    obtain ⟨s, rfl⟩ := List.head?_eq_some_iff.1 hs
    rw [List.cons_append, List.cons_append, afterAmount?, afterAmount?, afterGrouped_append hz,
      find?_map_append hz]
  · refine hnone (c :: s) (fun t he => hdollar (List.cons.inj he).1) fun t he => hminus ?_
    obtain ⟨hc, htail⟩ := List.cons.inj he
    refine ⟨hc, ?_⟩
    cases s with
    | nil => exact absurd htail (hz.ne_cons (by decide) t)
    | cons d s => exact congrArg some (List.cons.inj htail).1

theorem dropSpace_append (s : Text) : dropSpace (s ++ z) = dropSpace s ++ z := by
  cases s with
  | cons c s =>
    show (if c = ' ' || c = '\t' then s ++ z else c :: s ++ z) = _
    rw [dropSpace]
    split <;> rfl
  | nil =>
    cases z with
    | nil => rfl
    | cons c z =>
      show (if c = ' ' || c = '\t' then z else c :: z) = c :: z
      rw [if_neg (by simp [hz.head_ne (b := ' ') (by decide), hz.head_ne (b := '\t') (by decide)])]

theorem afterDash?_append (s : Text) : afterDash? (s ++ z) = (afterDash? s).map (· ++ z) := by
  rw [afterDash?, afterDash?, dropSpace_append hz]
  cases dropSpace s with
  | cons c t =>
    show (if c = '-' || c = '–' then some (dropSpace (t ++ z)) else none) = _
    rw [dropSpace_append hz]
    dsimp only
    split <;> rfl
  | nil =>
    cases z with
    | nil => rfl
    | cons c z =>
      show (if c = '-' || c = '–' then some (dropSpace z) else none) = none
      rw [if_neg (by simp [hz.head_ne (b := '-') (by decide), hz.head_ne (b := '–') (by decide)])]

omit hz in
theorem front_append_append (s t : Text) : front (s ++ z) (t ++ z) = front s t := by
  have hlen : (s ++ z).length - (t ++ z).length = s.length - t.length := by
    simp only [List.length_append]
    omega
  rw [front, front, hlen, List.take_append_of_le_length (Nat.sub_le _ _)]

/-- **The amounts before a token are those of the text that ends there.** -/
theorem recogniser_append (before : Option Char) (s : Text) :
    recogniser before (s ++ z) = recogniser before s := by
  simp only [recogniser, afterAmount?_append hz, Option.bind_eq_bind]
  cases afterAmount? before s with
  | none => rfl
  | some rest =>
    simp only [Option.map_some, Option.bind_some, front_append_append, afterDash?_append hz]
    cases afterDash? rest with
    | none => rfl
    | some right =>
      simp only [Option.map_some, Option.bind_some, front_append_append, afterAmount?_append hz]
      cases afterAmount? none right with
      | none => rfl
      | some rest' => simp only [Option.map_some, Option.bind_some, front_append_append]

/-! ## Bare amounts -/

omit hz in
/-- A magnitude is written without private use characters. -/
theorem not_isPrivateUse_of_isBareSuffix {s : Text} (h : isBareSuffix s) :
    ∀ c ∈ s, isPrivateUse c = false := by
  have hletter : ∀ c, magnitudeLetters.contains c → isPrivateUse c = false := fun c hc => by
    have hall : magnitudeLetters.all (!isPrivateUse ·) := by decide
    simpa using List.all_eq_true.1 hall c (List.contains_iff_mem.1 hc)
  have hword : ∀ w ∈ magnitudeWords, ∀ c ∈ w, isPrivateUse c = false := by
    have hall : ∀ w ∈ magnitudeWords, w.all (!isPrivateUse ·) := by decide
    simpa using hall
  unfold isBareSuffix at h
  split at h
  · simp
  · next c => simpa using hletter c h
  · next b c =>
    rw [Bool.and_eq_true] at h
    have hb : isPrivateUse b = false := by
      refine Bool.eq_false_iff.2 fun hb => ?_
      rw [not_isBlank_of_isPrivateUse hb] at h
      cases h.1
    simpa using ⟨hb, hletter c h.2⟩
  · next c t _ _ =>
    have hlower := hword _ (List.contains_iff_mem.1 h)
    rw [List.forall_mem_cons] at hlower ⊢
    refine ⟨Bool.eq_false_iff.2 fun hc => ?_, hlower.2⟩
    rw [toLower_of_isPrivateUse hc, hc] at hlower
    cases hlower.1

/-- Nothing in which a private use character stands is a bare amount. -/
theorem isBare_append (hne : z ≠ []) (s : Text) : isBare (s ++ z) = false := by
  have hdigit : ∀ c, isPrivateUse c → isDecimalDigit c = false :=
    fun c => not_isDecimalDigit_of_isPrivateUse
  have hsuffix : ∀ t, isBareSuffix (t ++ z) = false := by
    intro t
    obtain ⟨c, z, rfl⟩ := List.exists_cons_of_ne_nil hne
    refine Bool.eq_false_iff.2 fun h => ?_
    have hc := not_isPrivateUse_of_isBareSuffix h c (by simp)
    rw [hz c rfl] at hc
    cases hc
  rw [isBare, hz.dropOne (by decide), hz.takeWhile hdigit,
    List.drop_append_of_le_length (List.takeWhile_prefix _).length_le, afterGroups_append hz hdigit]
  simp [List.any_map, Function.comp_def, afterFraction_append hz hdigit, hsuffix]

end

theorem recogniser_congr {before before' : Option Char}
    (h : before = some '\\' ↔ before' = some '\\') (s : Text) :
    recogniser before s = recogniser before' s := by
  rw [recogniser, recogniser, afterAmount?_congr h]

end MarkdownPrep.Amount

namespace MarkdownPrep.Stash

open Amount

/-- **Amounts are found in every dress.** -/
theorem blind_amounts : Blind (fun m => ∃ t, m = plain t) fun _ => Amount.recogniser where
  honest _ := Amount.honest_recogniser
  skips S b c s hS _ hc := by
    have hdollar : c ≠ '$' := by
      rintro rfl
      exact plain_of_isSign (by decide) S hS hc
    have hminus : c ≠ '-' := by
      rintro rfl
      rcases hc with rfl | hc
      · exact absurd hS (by decide)
      · exact absurd hc (by decide)
    rw [recogniser, afterAmount?_eq_none]
    · rfl
    · exact fun t he => hdollar (List.cons.inj he).1
    · exact fun t he => hminus (List.cons.inj he).1
  reads b as _ := by
    obtain ⟨u, bs, rfl, hbs⟩ := exists_eq_plain_append as
    have hread : ∀ d : Dress, d.Fits (b.toList ++ (plain u ++ bs)) →
        recogniser (d.last b) (d.spell (plain u ++ bs)) =
          recogniser (if b = some (.char '\\') then some '\\' else none) u := fun d hd => by
      rw [Dress.spell_append, Dress.spell_plain, recogniser_append (d.stops_spell hd.1 hbs)]
      refine recogniser_congr ?_ u
      rw [Dress.last_eq_some_iff ((plain_of_isSign (by decide)).ne hd.1)]
      split <;> simp_all
    cases h : recogniser (if b = some (.char '\\') then some '\\' else none) u with
    | none => exact .inl fun d hd => (hread d hd).trans h
    | some ps =>
      obtain ⟨hne, v, hv⟩ := Amount.honest_recogniser _ _ _ h
      refine .inr ⟨Cell.ofPieces ps, plain v ++ bs, ?_, ?_, ?_, fun d hd => ?_⟩
      · rw [Cell.layer_ofPieces, ← List.append_assoc, ← plain_append, hv]
      · rw [Cell.layer_ofPieces]
        exact fun hnil => hne (plain_inj hnil)
      · rw [Cell.founds_ofPieces, List.forall_mem_map]
        exact fun t _ => ⟨t, rfl⟩
      · rw [hread d hd, h, Dress.pieces, Cell.renumber_ofPieces, Cell.pieces_ofPieces]

end MarkdownPrep.Stash
