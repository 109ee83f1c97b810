import MarkdownPrep.Proofs.Stash.Layer
import MarkdownPrep.Text.Replace

/-!
# Replacing a token

Where a token is replaced in the text of a layer, one of two things happens. If no stretch of
characters between two tokens reads as the token (`Spoofs`), the result is the text of the layer
with the token exchanged (`replace_spell`). If one does, a sentinel of each of its two neighbours
is used up, and from then on some run of token characters holds an odd number of sentinels
(`not_balanced_of_spoofs`); no later replacement mends that (`balanced_of_replace`), and a text
without sentinels is balanced (`balanced_of_not_mem`), so the sentinels stay for good.
-/

namespace MarkdownPrep

/-! ## Replacing a text -/

namespace Text

theorem replace_cons_of_not_front {old : Text} (new : Text) {c : Char} {s : Text}
    (h : ¬ old <+: c :: s) : replace old new (c :: s) = c :: replace old new s := by
  rw [replace, replaceFrom, if_neg fun hp => h (List.isPrefixOf_iff_prefix.1 hp)]
  rfl

/-- A text is not replaced where its first character does not stand. -/
theorem replace_append_of_not_mem {c : Char} {old : Text} (new : Text) {s : Text} (t : Text)
    (h : c ∉ s) : replace (c :: old) new (s ++ t) = s ++ replace (c :: old) new t := by
  induction s with
  | nil => rfl
  | cons d s ih =>
    rw [List.mem_cons, not_or] at h
    rw [List.cons_append, replace_cons_of_not_front, ih h.2, List.cons_append]
    exact fun hp => h.1 (List.cons_prefix_cons.1 hp).1

theorem mem_replace {c : Char} {old : Text} (hold : old ≠ []) (hc : c ∉ old) (new : Text)
    {s : Text} (h : c ∈ s) : c ∈ replace old new s := by
  by_cases hp : old <+: s
  · obtain ⟨t, rfl⟩ := hp
    have hlt : t.length < (old ++ t).length := by simp [List.length_pos_iff.2 hold]
    rw [replace_append_self hold]
    exact List.mem_append_right _ (mem_replace hold hc new ((List.mem_append.1 h).resolve_left hc))
  · cases s with
    | nil => cases h
    | cons d s =>
      rw [replace_cons_of_not_front new hp]
      rcases List.mem_cons.1 h with rfl | h
      · exact List.mem_cons_self
      · exact List.mem_cons_of_mem _ (mem_replace hold hc new h)
termination_by s.length

end Text

namespace Stash

/-! ## Exchanging a token in a layer -/

/-- A layer with a token exchanged for a layer. -/
def exchange (kind : Kind) (i : Nat) (new as : Layer) : Layer :=
  as.flatMap fun a => if a = .token kind i then new else [a]

/-- Between two tokens stand characters that read, with the sentinels next to them, as the token
of a given kind and number, and the token before them is another one. -/
def Spoofs (kind : Kind) (i : Nat) (as : Layer) : Prop :=
  ∃ kind₁ i₁ kind₂ i₂, (kind₁, i₁) ≠ (kind, i) ∧
    .token kind₁ i₁ :: (plain (tokenBody kind i) ++ [.token kind₂ i₂]) <:+: as

section
variable {kind : Kind} {i : Nat} {new : Layer}

@[simp] theorem exchange_nil : exchange kind i new [] = [] := rfl

@[simp] theorem exchange_append (as bs : Layer) :
    exchange kind i new (as ++ bs) = exchange kind i new as ++ exchange kind i new bs := by
  simp [exchange]

theorem exchange_cons (a : Atom) (as : Layer) :
    exchange kind i new (a :: as) =
      (if a = .token kind i then new else [a]) ++ exchange kind i new as := by
  simp [exchange]

@[simp] theorem exchange_self_cons (as : Layer) :
    exchange kind i new (.token kind i :: as) = new ++ exchange kind i new as := by
  simp [exchange]

theorem exchange_of_not_mem {as : Layer} (h : .token kind i ∉ as) :
    exchange kind i new as = as := by
  induction as with
  | nil => rfl
  | cons a as ih =>
    rw [List.mem_cons, not_or] at h
    rw [exchange_cons, if_neg (Ne.symm h.1), ih h.2, List.singleton_append]

@[simp] theorem exchange_plain (s : Text) : exchange kind i new (plain s) = plain s :=
  exchange_of_not_mem (token_not_mem_plain _ _ _)

/-- A token that stands at one place is exchanged there. -/
theorem exchange_at {pre post : Layer} (hpre : .token kind i ∉ pre)
    (hpost : .token kind i ∉ post) :
    exchange kind i new (pre ++ .token kind i :: post) = pre ++ (new ++ post) := by
  rw [exchange_append, exchange_self_cons, exchange_of_not_mem hpre, exchange_of_not_mem hpost]

theorem Spoofs.cons {a : Atom} {as : Layer} (h : Spoofs kind i as) : Spoofs kind i (a :: as) := by
  obtain ⟨kind₁, i₁, kind₂, i₂, hne, h⟩ := h
  exact ⟨kind₁, i₁, kind₂, i₂, hne, h.trans (List.suffix_cons a as).isInfix⟩

/-- What reads as a token does so at the first atom or after it. -/
theorem spoofs_cons_iff {a : Atom} {as : Layer} :
    Spoofs kind i (a :: as) ↔ Spoofs kind i as ∨
      a ≠ .token kind i ∧ (∃ kind₁ i₁, a = .token kind₁ i₁) ∧
        ∃ kind₂ i₂, plain (tokenBody kind i) ++ [.token kind₂ i₂] <+: as := by
  constructor
  · rintro ⟨kind₁, i₁, kind₂, i₂, hne, h⟩
    rcases List.infix_cons_iff.1 h with h | h
    · obtain ⟨rfl, h'⟩ := List.cons_prefix_cons.1 h
      exact .inr ⟨fun he => hne (by cases he; rfl), ⟨_, _, rfl⟩, _, _, h'⟩
    · exact .inl ⟨_, _, _, _, hne, h⟩
  · rintro (h | ⟨hne, ⟨kind₁, i₁, rfl⟩, kind₂, i₂, h⟩)
    · exact h.cons
    · exact ⟨kind₁, i₁, kind₂, i₂, fun he => hne (by cases he; rfl),
        (List.cons_prefix_cons.2 ⟨rfl, h⟩).isInfix⟩

end

/-! ## Replacing a token in a text -/

theorem replace_spell_char {S : Char} {kind : Kind} {i : Nat} {new : Text} {c : Char} {as : Layer}
    (hc : c ≠ S) : Text.replace (token S kind i) new (spell S (.char c :: as)) =
      c :: Text.replace (token S kind i) new (spell S as) :=
  Text.replace_cons_of_not_front _ fun hp => hc (List.cons_prefix_cons.1 hp).1.symm

section
variable {S : Char} (hS : ¬ isTokenChar S)
include hS

/-- The token of `kind` and `i` stands in a text at the end of another token exactly if the body
and a further token follow. -/
theorem token_prefix_iff {kind : Kind} {i : Nat} {as : Layer} (hs : Sound S as) :
    token S kind i <+: S :: spell S as ↔
      ∃ kind₂ i₂, plain (tokenBody kind i) ++ [.token kind₂ i₂] <+: as := by
  constructor
  · rintro ⟨u, hu⟩
    have hu : spell S as = tokenBody kind i ++ S :: u := by
      simpa [token] using (List.cons.inj hu).2.symm
    obtain ⟨bs, rfl, hb⟩ := exists_plain_of_spell hu (sentinel_not_mem_tokenBody hS kind i)
    cases bs with
    | nil => cases hb
    | cons b bs =>
      cases b with
      | char c =>
        obtain rfl : c = S := (List.cons.inj hb).1
        simp [Sound] at hs
      | token kind₂ i₂ => exact ⟨kind₂, i₂, bs, by simp⟩
  · rintro ⟨kind₂, i₂, bs, rfl⟩
    exact ⟨tokenBody kind₂ i₂ ++ S :: spell S bs, by simp [token]⟩

/-- Another token stays, up to its last character. -/
theorem replace_spell_token {kind kind' : Kind} {i i' : Nat} (new : Text) {as : Layer}
    (hne : (.token kind' i' : Atom) ≠ .token kind i) :
    Text.replace (token S kind i) new (spell S (.token kind' i' :: as)) =
      S :: (tokenBody kind' i' ++ Text.replace (token S kind i) new (S :: spell S as)) := by
  rw [spell_token_cons, Text.replace_cons_of_not_front]
  · rw [token, List.cons_append,
      Text.replace_append_of_not_mem _ _ (sentinel_not_mem_tokenBody hS kind' i')]
  · rintro ⟨u, hu⟩
    have hu : tokenBody kind i ++ S :: u = tokenBody kind' i' ++ S :: spell S as := by
      simpa [token] using (List.cons.inj hu).2
    obtain ⟨rfl, rfl, -⟩ := tokenBody_eq_of_append hS hu
    exact hne rfl

/-- **A token that nothing spoofs is replaced where it stands, and nothing else is.** -/
theorem replace_spell {kind : Kind} {i : Nat} (new : Layer) {as : Layer} (hs : Sound S as)
    (h : ¬ Spoofs kind i as) : Text.replace (token S kind i) (spell S new) (spell S as) =
      spell S (exchange kind i new as) := by
  induction as with
  | nil => rfl
  | cons a as ih =>
    have ih := ih hs.of_cons fun hsp => h hsp.cons
    cases a with
    | char c => rw [replace_spell_char hs.ne, ih, exchange_cons, if_neg (by simp)]; rfl
    | token kind' i' =>
      by_cases he : (.token kind' i' : Atom) = .token kind i
      · cases he
        rw [exchange_self_cons, spell_append, ← ih]
        have htok : spell S (.token kind i :: as) = token S kind i ++ spell S as := by
          simp [token]
        rw [htok, Text.replace_append_self (by simp [token])]
      · rw [replace_spell_token hS _ he, Text.replace_cons_of_not_front, ih, exchange_cons,
          if_neg he, List.singleton_append, spell_token_cons]
        rw [token_prefix_iff hS hs.of_cons]
        exact fun hp => h (spoofs_cons_iff.2 (.inr ⟨he, ⟨_, _, rfl⟩, hp⟩))

end

/-! ## Balance -/

/-- A text is balanced if each run of characters that stand in tokens holds an even number of
sentinels; `odd` says that the run that the text continues holds an odd number so far. -/
def balanced (S : Char) (odd : Bool) : Text → Bool
  | [] => !odd
  | c :: s =>
    if c = S then balanced S (!odd) s
    else if isTokenChar c then balanced S odd s
    else !odd && balanced S false s

theorem balanced_of_not_mem {S : Char} {s : Text} (h : S ∉ s) : balanced S false s := by
  induction s with
  | nil => rfl
  | cons c s ih =>
    rw [List.mem_cons, not_or] at h
    rw [balanced, if_neg (Ne.symm h.1)]
    split
    · exact ih h.2
    · simpa using ih h.2

/-- A layer that opens with an edge ends a run. -/
theorem not_balanced_of_opens {S : Char} {new : Layer} (hn : Sound S new) (ho : Opens new)
    (t : Text) :
    balanced S true (spell S new ++ t) = false := by
  obtain ⟨c, hc, hedge⟩ := ho
  obtain ⟨new', rfl⟩ := List.head?_eq_some_iff.1 hc
  rw [spell_char_cons, List.cons_append, balanced, if_neg hn.ne,
    if_neg (not_isTokenChar_of_isEdge hedge)]
  rfl

section
variable {S : Char} (hS : ¬ isTokenChar S)
include hS

theorem balanced_tokenBody_append (kind : Kind) (i : Nat) (odd : Bool) (t : Text) :
    balanced S odd (tokenBody kind i ++ t) = balanced S odd t := by
  have key : ∀ u : Text, (∀ c ∈ u, isTokenChar c) → balanced S odd (u ++ t) = balanced S odd t := by
    intro u hu
    induction u with
    | nil => rfl
    | cons c u ih =>
      rw [List.forall_mem_cons] at hu
      rw [List.cons_append, balanced, if_neg (by rintro rfl; exact hS hu.1), if_pos hu.1,
        ih hu.2]
  exact key _ fun _ => isTokenChar_of_mem_tokenBody

/-- The text of a layer is balanced. -/
theorem balanced_spell_append {as : Layer} (hs : Sound S as) (t : Text) :
    balanced S false (spell S as ++ t) = balanced S false t := by
  induction as with
  | nil => rfl
  | cons a as ih =>
    have ih := ih hs.of_cons
    cases a with
    | char c =>
      rw [spell_char_cons, List.cons_append, balanced, if_neg hs.ne]
      split
      · exact ih
      · simpa using ih
    | token kind i =>
      rw [spell_token_cons, List.cons_append, balanced, if_pos rfl, List.append_assoc,
        balanced_tokenBody_append hS, List.cons_append, balanced, if_pos rfl]
      exact ih

/-- **Replacing a token mends no run.** -/
theorem balanced_of_replace {kind : Kind} {i : Nat} {new : Layer} (hn : Sound S new)
    (ho : Opens new) : ∀ (n : Nat) (odd : Bool) (s : Text), s.length = n →
      balanced S odd (Text.replace (token S kind i) (spell S new) s) → balanced S odd s := by
  intro n
  induction n using Nat.strongRecOn with
  | ind n ih =>
    rintro odd s rfl h
    cases s with
    | nil => exact h
    | cons c s =>
      by_cases hp : token S kind i <+: c :: s
      · obtain ⟨t, ht⟩ := hp
        have hlen : t.length < (c :: s).length := by
          rw [← ht, List.length_append, token]
          simp
        rw [← ht] at h ⊢
        rw [Text.replace_append_self (by simp [token])] at h
        cases odd with
        | true => rw [not_balanced_of_opens hn ho] at h; cases h
        | false =>
          rw [balanced_spell_append hS hn] at h
          have htok : token S kind i = spell S [.token kind i] := by simp [token]
          rw [htok, balanced_spell_append hS (by simp [Sound])]
          exact ih _ hlen _ _ rfl h
      · rw [Text.replace_cons_of_not_front _ hp, balanced] at h
        rw [balanced]
        have ih := fun odd => ih s.length (Nat.lt_succ_self _) odd s rfl
        by_cases hc : c = S
        · rw [if_pos hc] at h ⊢
          exact ih _ h
        by_cases hm : isTokenChar c
        · rw [if_neg hc, if_pos hm] at h ⊢
          exact ih _ h
        · rw [if_neg hc, if_neg hm, Bool.and_eq_true] at h ⊢
          exact ⟨h.1, ih _ h.2⟩

/-- **Where something spoofs a token, replacing the token breaks a run.** -/
theorem not_balanced_of_spoofs {kind : Kind} {i : Nat} {new as : Layer} (hs : Sound S as)
    (hn : Sound S new) (ho : Opens new) (h : Spoofs kind i as) :
    balanced S false (Text.replace (token S kind i) (spell S new) (spell S as)) = false := by
  induction as with
  | nil => obtain ⟨_, _, _, _, -, h⟩ := h; cases List.infix_nil.1 h
  | cons a as ih =>
    have ih := ih hs.of_cons
    cases a with
    | char c =>
      rcases spoofs_cons_iff.1 h with h | ⟨-, ⟨_, _, he⟩, -⟩
      · rw [replace_spell_char hs.ne, balanced, if_neg hs.ne]
        split
        · exact ih h
        · rw [ih h]; rfl
      · cases he
    | token kind' i' =>
      by_cases he : (.token kind' i' : Atom) = .token kind i
      · have h' : Spoofs kind i as := (spoofs_cons_iff.1 h).resolve_right fun h => h.1 he
        cases he
        have htok : spell S (.token kind i :: as) = token S kind i ++ spell S as := by
          simp [token]
        rw [htok, Text.replace_append_self (by simp [token]), balanced_spell_append hS hn, ih h']
      · rw [replace_spell_token hS _ he, balanced, if_pos rfl, balanced_tokenBody_append hS]
        by_cases hp : token S kind i <+: S :: spell S as
        · obtain ⟨t, ht⟩ := hp
          rw [← ht, Text.replace_append_self (by simp [token])]
          exact not_balanced_of_opens hn ho _
        · rw [Text.replace_cons_of_not_front _ hp, balanced, if_pos rfl]
          rw [token_prefix_iff hS hs.of_cons] at hp
          exact ih ((spoofs_cons_iff.1 h).resolve_right fun h => hp h.2.2)

end

end Stash

end MarkdownPrep
