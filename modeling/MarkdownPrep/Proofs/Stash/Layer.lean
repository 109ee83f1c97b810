import MarkdownPrep.Proofs.Text.CharCode
import MarkdownPrep.Proofs.Text.PrivateUse
import MarkdownPrep.Stash.Token

/-!
# Layers: texts in which tokens are told from characters

A text with tokens in it is read as a *layer*, a list of atoms: each atom is a character of the
text's own or a whole token. `spell` writes a layer out. A text that is cut at a place that is not
inside a token (`Seam`) is cut between atoms (`exists_split_of_spell`), and a front part that holds
no sentinel consists of characters (`exists_plain_of_spell`). Tokens differ (`token_inj`), and
characters other than the sentinel differ from tokens (`Sound`), so a text is the spelling of one
sound layer at most (`spell_inj`).
-/

namespace MarkdownPrep.Stash

/-! ## Token bodies -/

/-- The characters that the labels and numbers of tokens are written with. -/
def isTokenChar (c : Char) : Bool := c = '_' || c.isUpper || c.isDigit

theorem isTokenChar_of_mem_tokenBody {kind : Kind} {i : Nat} {c : Char}
    (h : c ∈ tokenBody kind i) : isTokenChar c := by
  have hbar : ∀ c ∈ "__".toList, isTokenChar c := List.all_eq_true.1 (by decide)
  have hlabel : ∀ c ∈ kind.label, isTokenChar c :=
    List.all_eq_true.1 (by cases kind <;> decide)
  simp only [tokenBody, List.mem_append, List.mem_cons] at h
  rcases h with ((h | h) | h | h) | h
  · exact hbar c h
  · exact hlabel c h
  · exact h ▸ rfl
  · simp [isTokenChar, Nat.isDigit_of_mem_toDigits (by decide) (by decide) h]
  · exact hbar c h

theorem not_isTokenChar_of_isPrivateUse {c : Char} (h : isPrivateUse c) : ¬ isTokenChar c := by
  intro hc
  have h := isPrivateUse_iff.1 h
  simp only [isTokenChar, Bool.or_eq_true, decide_eq_true_eq, isUpper_iff, isDigit_iff] at hc
  rcases hc with (rfl | hc) | hc
  · revert h; decide
  · omega
  · omega

theorem tokenBody_ne_nil (kind : Kind) (i : Nat) : tokenBody kind i ≠ [] := by
  simp [tokenBody]

theorem head?_tokenBody (kind : Kind) (i : Nat) : (tokenBody kind i).head? = some '_' := rfl

/-- A body of a token has underscores. -/
theorem not_tokenBody_infix_of_not_mem {s : Text} (h : '_' ∉ s) (kind : Kind) (i : Nat) :
    ¬ tokenBody kind i <:+: s :=
  fun hi => h (hi.subset (List.mem_of_head? (head?_tokenBody kind i)))

/-- The digits of a token's body are those of its number. -/
theorem filter_isDigit_tokenBody (kind : Kind) (i : Nat) :
    (tokenBody kind i).filter Char.isDigit = Nat.toDigits 10 i := by
  have hlabel : kind.label.filter Char.isDigit = [] := by cases kind <;> decide
  have hbar : "__".toList.filter Char.isDigit = [] := by decide
  have hdigits : (Nat.toDigits 10 i).filter Char.isDigit = Nat.toDigits 10 i :=
    List.filter_eq_self.2 fun c hc => Nat.isDigit_of_mem_toDigits (by decide) (by decide) hc
  simp only [tokenBody, List.filter_append, List.filter_cons, hlabel, hbar, hdigits]
  simp

/-- Kind and number can be read off a token's body. -/
theorem tokenBody_inj {kind kind' : Kind} {i i' : Nat}
    (h : tokenBody kind i = tokenBody kind' i') : kind = kind' ∧ i = i' := by
  have hi : i = i' := by
    have hd := congrArg (List.filter Char.isDigit) h
    rw [filter_isDigit_tokenBody, filter_isDigit_tokenBody] at hd
    rw [← Nat.ofDigitChars_ten_toDigits (n := i), hd, Nat.ofDigitChars_ten_toDigits]
  subst hi
  refine ⟨?_, rfl⟩
  simp only [tokenBody, List.append_cancel_right_eq, List.append_cancel_left_eq] at h
  cases kind <;> cases kind' <;> first | rfl | exact absurd h (by decide)

/-! ## Atoms -/

/-- A part of a text with tokens: a character of the text's own, or a whole token. -/
inductive Atom where
  | char (c : Char)
  | token (kind : Kind) (index : Nat)
  deriving DecidableEq, Repr

/-- The text of an atom. -/
def Atom.text (sentinel : Char) : Atom → Text
  | char c => [c]
  | token kind index => Stash.token sentinel kind index

/-- A text in which tokens are told from characters. -/
abbrev Layer := List Atom

/-- The text of a layer. -/
def spell (sentinel : Char) (as : Layer) : Text := as.flatMap (Atom.text sentinel)

/-- The layer of a text without tokens. -/
def plain (s : Text) : Layer := s.map .char

section
variable {S : Char}

@[simp] theorem spell_nil : spell S [] = [] := rfl

@[simp] theorem spell_char_cons (c : Char) (as : Layer) :
    spell S (.char c :: as) = c :: spell S as := rfl

@[simp] theorem spell_token_cons (kind : Kind) (i : Nat) (as : Layer) :
    spell S (.token kind i :: as) = S :: (tokenBody kind i ++ S :: spell S as) := by
  simp [spell, Atom.text, token]

@[simp] theorem spell_append (as bs : Layer) : spell S (as ++ bs) = spell S as ++ spell S bs := by
  simp [spell]

@[simp] theorem spell_plain (s : Text) : spell S (plain s) = s := by
  induction s with
  | nil => rfl
  | cons c s ih => exact congrArg (c :: ·) ih

@[simp] theorem plain_nil : plain [] = [] := rfl

@[simp] theorem plain_cons (c : Char) (s : Text) : plain (c :: s) = .char c :: plain s := rfl

@[simp] theorem plain_append (s t : Text) : plain (s ++ t) = plain s ++ plain t := by
  simp [plain]

theorem infix_spell_of_plain {s : Text} {as : Layer} (h : plain s <:+: as) : s <:+: spell S as := by
  obtain ⟨x, y, rfl⟩ := h
  exact ⟨spell S x, spell S y, by simp⟩

theorem plain_inj {s t : Text} (h : plain s = plain t) : s = t :=
  List.map_injective_iff.2 (fun _ _ h => by cases h; rfl) h

theorem token_not_mem_plain (kind : Kind) (i : Nat) (s : Text) : .token kind i ∉ plain s := by
  simp [plain]

/-- A layer is a text up to its first token. -/
theorem exists_eq_plain_append (as : Layer) : ∃ (s : Text) (bs : Layer), as = plain s ++ bs ∧
    (bs = [] ∨ ∃ kind i cs, bs = .token kind i :: cs) := by
  induction as with
  | nil => exact ⟨[], [], rfl, .inl rfl⟩
  | cons a as ih =>
    cases a with
    | token kind i => exact ⟨[], _, rfl, .inr ⟨kind, i, as, rfl⟩⟩
    | char c =>
      obtain ⟨s, bs, rfl, hbs⟩ := ih
      exact ⟨c :: s, bs, rfl, hbs⟩

/-- A layer consists of characters, or a token stands in it. -/
theorem eq_plain_or_exists_token (as : Layer) :
    (∃ s, as = plain s) ∨ ∃ kind i, .token kind i ∈ as := by
  obtain ⟨s, bs, rfl, rfl | ⟨kind, i, cs, rfl⟩⟩ := exists_eq_plain_append as
  · exact .inl ⟨s, List.append_nil _⟩
  · exact .inr ⟨kind, i, by simp⟩

/-- The characters of a layer's own are not the sentinel. -/
def Sound (S : Char) (as : Layer) : Prop := .char S ∉ as

@[simp] theorem sound_append {as bs : Layer} : Sound S (as ++ bs) ↔ Sound S as ∧ Sound S bs := by
  simp [Sound]

@[simp] theorem sound_plain {s : Text} : Sound S (plain s) ↔ S ∉ s := by
  simp [Sound, plain]

theorem Sound.of_cons {a : Atom} {as : Layer} (h : Sound S (a :: as)) : Sound S as :=
  fun hm => h (List.mem_cons_of_mem _ hm)

theorem Sound.ne {c : Char} {as : Layer} (h : Sound S (.char c :: as)) : c ≠ S := by
  rintro rfl
  exact h List.mem_cons_self

end

/-! ## Places between atoms -/

/-- A character that stands in tokens. -/
def IsMark (S c : Char) : Prop := c = S ∨ isTokenChar c

theorem isMark_of_mem_token {S : Char} {kind : Kind} {i : Nat} {c : Char}
    (h : c ∈ token S kind i) : IsMark S c := by
  simp only [token, List.cons_append, List.mem_cons, List.mem_append, List.not_mem_nil,
    or_false] at h
  rcases h with h | h | h
  · exact .inl h
  · exact .inr (isTokenChar_of_mem_tokenBody h)
  · exact .inl h

/-- The characters of a layer are characters of its text. -/
theorem mem_spell_of_char_mem {S : Char} {as : Layer} {c : Char} (h : .char c ∈ as) :
    c ∈ spell S as :=
  List.mem_flatMap.2 ⟨_, h, List.mem_singleton_self c⟩

/-- A text that begins with a character that stands in no token is the text of a layer that does, -/
theorem head?_of_spell {S : Char} {as : Layer} {c : Char} (h : (spell S as).head? = some c)
    (hc : ¬ IsMark S c) : as.head? = some (.char c) := by
  cases as with
  | nil => cases h
  | cons a as =>
    cases a with
    | char d => exact congrArg _ (congrArg _ (Option.some.inj h))
    | token kind i => exact absurd (.inl (Option.some.inj h).symm) hc

/-- and so it is with the end. -/
theorem getLast?_of_spell {S : Char} {as : Layer} {c : Char} (h : (spell S as).getLast? = some c)
    (hc : ¬ IsMark S c) : as.getLast? = some (.char c) := by
  rcases as.eq_nil_or_concat with rfl | ⟨as, a, rfl⟩
  · cases h
  · rw [List.concat_eq_append, spell_append] at *
    cases a with
    | char d =>
      rw [spell_char_cons, spell_nil, List.getLast?_concat] at h
      rw [List.getLast?_concat, Option.some.inj h]
    | token kind i =>
      rw [spell_token_cons, spell_nil, ← List.cons_append, ← List.append_assoc,
        List.getLast?_concat] at h
      exact absurd (.inl (Option.some.inj h).symm) hc

/-- A place in a text, given by what stands before and after it, that is not inside a token, as
on one side of it no character of a token stands. -/
def Seam (S : Char) (s t : Text) : Prop :=
  (∀ c, s.getLast? = some c → ¬ IsMark S c) ∨ (∀ c, t.head? = some c → ¬ IsMark S c)

section
variable {S : Char}

theorem seam_to_nil (s : Text) : Seam S s [] := .inr fun _ h => by cases h

/-- The place between `s` and `t` is inside a stretch `w` of their text. -/
def Inside (w s t : Text) : Prop :=
  ∃ x u v y, u ≠ [] ∧ v ≠ [] ∧ w = u ++ v ∧ s = x ++ u ∧ t = v ++ y

theorem Inside.append_left {w s t : Text} (h : Inside w s t) (r : Text) : Inside w (r ++ s) t := by
  obtain ⟨x, u, v, y, hu, hv, hw, rfl, rfl⟩ := h
  exact ⟨r ++ x, u, v, y, hu, hv, hw, (List.append_assoc r x u).symm, rfl⟩

/-- A seam is not inside a token. -/
theorem Seam.not_inside {s t : Text} (h : Seam S s t) (kind : Kind) (i : Nat) :
    ¬ Inside (token S kind i) s t := by
  rintro ⟨x, u, v, y, hu, hv, htoken, rfl, rfl⟩
  have hmark : ∀ c ∈ u ++ v, IsMark S c := fun c hc => isMark_of_mem_token (htoken ▸ hc)
  rcases h with hlast | hfirst
  · refine hlast _ ?_ (hmark _ (List.mem_append_left v (List.getLast_mem hu)))
    rw [List.getLast?_append_of_ne_nil x hu, List.getLast?_eq_some_getLast hu]
  · obtain ⟨d, v, rfl⟩ := List.exists_cons_of_ne_nil hv
    exact hfirst d rfl (hmark d (by simp))

/-- **A text cut at a place that is not inside a token of its layer** is cut between atoms. -/
theorem exists_split_of_not_inside {as : Layer} {s t : Text} (h : spell S as = s ++ t)
    (hout : ∀ kind i, .token kind i ∈ as → ¬ Inside (token S kind i) s t) :
    ∃ as₁ as₂, as = as₁ ++ as₂ ∧ spell S as₁ = s ∧ spell S as₂ = t := by
  induction as generalizing s with
  | nil =>
    obtain ⟨rfl, rfl⟩ := List.append_eq_nil_iff.1 h.symm
    exact ⟨[], [], rfl, rfl, rfl⟩
  | cons a as ih =>
    have ha : spell S (a :: as) = a.text S ++ spell S as := rfl
    rw [ha] at h
    rcases List.append_eq_append_iff.1 h with ⟨s', rfl, hrest⟩ | ⟨v, hv, rfl⟩
    · obtain ⟨as₁, as₂, rfl, rfl, rfl⟩ := ih hrest fun kind i hm hin =>
        hout kind i (List.mem_cons_of_mem a hm) (hin.append_left _)
      exact ⟨a :: as₁, as₂, rfl, rfl, rfl⟩
    · by_cases hs : s = []
      · subst hs
        exact ⟨[], a :: as, rfl, rfl, by rw [ha, hv, List.nil_append]⟩
      · by_cases hv' : v = []
        · subst hv'
          exact ⟨[a], as, rfl, by simpa [spell] using hv, rfl⟩
        · cases a with
          | token kind i =>
            exact absurd ⟨[], s, v, spell S as, hs, hv', hv, rfl, rfl⟩
              (hout kind i List.mem_cons_self)
          | char c =>
            have hlen := congrArg List.length hv
            have := List.length_pos_iff.2 hs
            have := List.length_pos_iff.2 hv'
            simp only [Atom.text, List.length_singleton, List.length_append] at hlen
            omega

/-- **A text cut at a seam is cut between atoms.** -/
theorem exists_split_of_spell {as : Layer} {s t : Text} (h : spell S as = s ++ t)
    (hseam : Seam S s t) : ∃ as₁ as₂, as = as₁ ++ as₂ ∧ spell S as₁ = s ∧ spell S as₂ = t :=
  exists_split_of_not_inside h fun kind i _ => hseam.not_inside kind i

/-- A front part without the sentinel consists of characters. -/
theorem exists_plain_of_spell {as : Layer} {s t : Text} (h : spell S as = s ++ t) (hs : S ∉ s) :
    ∃ as', as = plain s ++ as' ∧ spell S as' = t := by
  induction s generalizing as with
  | nil => exact ⟨as, rfl, h⟩
  | cons c s ih =>
    cases as with
    | nil => cases h
    | cons a as =>
      cases a with
      | token kind i =>
        rw [spell_token_cons] at h
        exact absurd (List.cons.inj h).1 fun hc => hs (hc ▸ List.mem_cons_self)
      | char d =>
        obtain ⟨rfl, h'⟩ := List.cons.inj h
        obtain ⟨as', rfl, rfl⟩ := ih h' fun hm => hs (List.mem_cons_of_mem _ hm)
        exact ⟨as', rfl, rfl⟩

end

/-! ## Edges -/

/-- The characters that a stretch put aside begins and ends with: dollars, the markers of code and
white space. -/
def isEdge (c : Char) : Bool := c = '$' || c = '`' || c = '~' || isBlank c

theorem not_isTokenChar_of_isEdge {c : Char} (h : isEdge c) : ¬ isTokenChar c := by
  intro hc
  simp only [isTokenChar, Bool.or_eq_true, decide_eq_true_eq, isUpper_iff, isDigit_iff] at hc
  simp only [isEdge, isBlank, inRanges, blankRanges, List.any_cons, List.any_nil, Bool.or_false,
    Bool.or_eq_true, decide_eq_true_eq, Bool.and_eq_true] at h
  rcases hc with (rfl | hc) | hc
  · revert h; decide
  all_goals
    rcases h with ((rfl | rfl) | rfl) | h
    · revert hc; decide
    · revert hc; decide
    · revert hc; decide
    · omega

theorem not_isPrivateUse_of_isEdge {c : Char} (h : isEdge c) : ¬ isPrivateUse c := by
  intro hc
  have hc := isPrivateUse_iff.1 hc
  simp only [isEdge, isBlank, inRanges, blankRanges, List.any_cons, List.any_nil, Bool.or_false,
    Bool.or_eq_true, decide_eq_true_eq, Bool.and_eq_true] at h
  rcases h with ((rfl | rfl) | rfl) | h
  · revert hc; decide
  · revert hc; decide
  · revert hc; decide
  · omega

/-- An edge stands in no token. -/
theorem not_isMark_of_isEdge {S c : Char} (hS : isPrivateUse S) (h : isEdge c) : ¬ IsMark S c := by
  rintro (rfl | hc)
  · exact not_isPrivateUse_of_isEdge h hS
  · exact not_isTokenChar_of_isEdge h hc

/-- A layer opens with an edge. -/
def Opens (as : Layer) : Prop := ∃ c, as.head? = some (.char c) ∧ isEdge c

/-- A layer ends with an edge. -/
def Shut (as : Layer) : Prop := ∃ c, as.getLast? = some (.char c) ∧ isEdge c

section
variable {S : Char} (hS : isPrivateUse S) {as : Layer} {c : Char}
include hS

theorem opens_of_head?_spell (h : (spell S as).head? = some c) (hc : isEdge c) : Opens as :=
  ⟨c, head?_of_spell h (not_isMark_of_isEdge hS hc), hc⟩

theorem shut_of_getLast?_spell (h : (spell S as).getLast? = some c) (hc : isEdge c) :
    Shut as :=
  ⟨c, getLast?_of_spell h (not_isMark_of_isEdge hS hc), hc⟩

end

/-! ## One layer for each text -/

section
variable {S : Char} (hS : ¬ isTokenChar S)
include hS

theorem sentinel_not_mem_tokenBody (kind : Kind) (i : Nat) : S ∉ tokenBody kind i :=
  fun h => hS (isTokenChar_of_mem_tokenBody h)

/-- Of two texts that start with a token body and a sentinel, the bodies are the same. -/
theorem tokenBody_eq_of_append {kind kind' : Kind} {i i' : Nat} {s t : Text}
    (h : tokenBody kind i ++ S :: s = tokenBody kind' i' ++ S :: t) :
    kind = kind' ∧ i = i' ∧ s = t := by
  have hbody : ∀ kind i s, (tokenBody kind i ++ S :: s).takeWhile (· ≠ S) = tokenBody kind i := by
    intro kind i s
    rw [List.takeWhile_append_of_pos fun c hc => ?_]
    · simp
    · exact decide_eq_true fun he => sentinel_not_mem_tokenBody hS kind i (he ▸ hc)
  have hb := congrArg (List.takeWhile (· ≠ S)) h
  rw [hbody, hbody] at hb
  obtain ⟨rfl, rfl⟩ := tokenBody_inj hb
  exact ⟨rfl, rfl, by simpa using h⟩

theorem token_inj {kind kind' : Kind} {i i' : Nat} (h : token S kind i = token S kind' i') :
    kind = kind' ∧ i = i' := by
  have h := (List.cons.inj h).2
  obtain ⟨rfl, rfl, -⟩ := tokenBody_eq_of_append hS (s := []) (t := []) h
  exact ⟨rfl, rfl⟩

/-- **A text spells one sound layer at most.** -/
theorem spell_inj {as bs : Layer} (ha : Sound S as) (hb : Sound S bs)
    (h : spell S as = spell S bs) : as = bs := by
  induction as generalizing bs with
  | nil =>
    cases bs with
    | nil => rfl
    | cons b bs => cases b <;> simp at h
  | cons a as ih =>
    cases bs with
    | nil => cases a <;> simp at h
    | cons b bs =>
      cases a with
      | char c =>
        cases b with
        | char d =>
          obtain ⟨rfl, h'⟩ := List.cons.inj h
          rw [ih ha.of_cons hb.of_cons h']
        | token kind i => exact absurd (List.cons.inj (h.trans (spell_token_cons ..))).1 ha.ne
      | token kind i =>
        cases b with
        | char d =>
          exact absurd (List.cons.inj ((spell_token_cons ..).symm.trans h)).1.symm hb.ne
        | token kind' i' =>
          rw [spell_token_cons, spell_token_cons] at h
          obtain ⟨rfl, rfl, h'⟩ := tokenBody_eq_of_append hS (List.cons.inj h).2
          rw [ih ha.of_cons hb.of_cons h']

end

end MarkdownPrep.Stash
