import Mathlib.Data.Nat.Find
import MarkdownPrep.Proofs.Json.Steps

/-!
# Braces of JSON texts

A brace of a JSON text stands for an object unless it is part of a string. `bare s` is what stands
outside the strings of a text and `quoted s` what stands in them, a string that is cut off included;
both are told apart without reading the document (`Zone`). Every step of the reader keeps the account
of the braces outside strings: as many of them are open as objects (`run_follows`). So a document is
finished only when they are equally many (`opens_eq_closes_of_read?`), and the brace that matches the
first one exists in every document that starts with a brace (`exists_closesAt`).
-/

namespace MarkdownPrep.Json

/-! ## Inside and outside strings -/

/-- Where a place of a text stands with regard to its strings. -/
inductive Zone where
  | outside
  | inside
  /-- In a string, after a backslash. -/
  | escaped
  deriving DecidableEq, Repr

/-- The zone after one more character. -/
def Zone.next : Zone → Char → Zone
  | .outside, c => if c = '"' then .inside else .outside
  | .inside, c => if c = '"' then .outside else if c = '\\' then .escaped else .inside
  | .escaped, _ => .inside

/-- The zone after a text. -/
def Zone.after (z : Zone) (s : Text) : Zone := s.foldl Zone.next z

/-- The characters outside strings of a text that starts in a zone. -/
def bareFrom : Zone → Text → Text
  | _, [] => []
  | z, c :: s => if z = .outside then c :: bareFrom (z.next c) s else bareFrom (z.next c) s

/-- The characters in strings of a text that starts in a zone. -/
def quotedFrom : Zone → Text → Text
  | _, [] => []
  | z, c :: s => if z = .outside then quotedFrom (z.next c) s else c :: quotedFrom (z.next c) s

/-- The characters of a text outside its strings. -/
def bare (s : Text) : Text := bareFrom .outside s

/-- The characters of a text in its strings, the last of which may be cut off. -/
def quoted (s : Text) : Text := quotedFrom .outside s

/-- Every character stands in a string or outside. -/
theorem count_bareFrom_add (c : Char) (z : Zone) (s : Text) :
    (bareFrom z s).count c + (quotedFrom z s).count c = s.count c := by
  induction s generalizing z with
  | nil => rfl
  | cons d s ih =>
    rw [bareFrom, quotedFrom]
    split <;> simp only [List.count_cons, ← ih (z.next d)] <;> omega

theorem bareFrom_append (z : Zone) (s t : Text) :
    bareFrom z (s ++ t) = bareFrom z s ++ bareFrom (z.after s) t := by
  induction s generalizing z with
  | nil => rfl
  | cons c s ih =>
    simp only [List.cons_append, bareFrom, ih, Zone.after, List.foldl_cons]
    split <;> rfl

/-- A text without a quote that starts outside strings stays there. -/
theorem bare_eq_self {s : Text} (h : '"' ∉ s) : bare s = s ∧ Zone.after .outside s = .outside := by
  induction s with
  | nil => exact ⟨rfl, rfl⟩
  | cons c s ih =>
    simp only [List.mem_cons, not_or] at h
    have hnext : Zone.next .outside c = .outside := if_neg (Ne.symm h.1)
    obtain ⟨hbare, hafter⟩ := ih h.2
    refine ⟨?_, ?_⟩
    · rw [bare, bareFrom, if_pos rfl, hnext]
      exact congrArg (c :: ·) hbare
    · rw [Zone.after, List.foldl_cons, hnext]
      exact hafter

/-- The number of opening braces outside strings. -/
def opens (s : Text) : Nat := (bare s).count '\x7b'

/-- The number of closing braces outside strings. -/
def closes (s : Text) : Nat := (bare s).count '\x7d'

/-- The brace that matches the first opening brace of a text stands at the place `n`: more braces are
open than closed everywhere between them, and as many with the brace at `n`. -/
structure ClosesAt (t : Text) (n : Nat) : Prop where
  brace : t[n]? = some '\x7d'
  still_open : ∀ m ≤ n, '\x7b' ∈ t.take m → closes (t.take m) < opens (t.take m)
  closed : opens (t.take (n + 1)) = closes (t.take (n + 1))

/-! ## Steps of the reader -/

/-- The zone in which a mode is. -/
def Mode.zone : Mode → Zone
  | .string .. | .hex .. => .inside
  | .escape .. => .escaped
  | _ => .outside

/-- True for objects. -/
def Frame.isObject : Frame → Bool
  | .items _ => false
  | .members _ | .entry .. => true

/-- The number of objects among arrays and objects that are open. -/
def objects (frames : List Frame) : Nat := frames.countP Frame.isObject

@[simp] theorem objects_nil : objects [] = 0 := rfl

@[simp] theorem objects_items (before : List Tree) (frames : List Frame) :
    objects (.items before :: frames) = objects frames := rfl

@[simp] theorem objects_members (before : List (List Glyph × Tree)) (frames : List Frame) :
    objects (.members before :: frames) = objects frames + 1 := List.countP_cons_of_pos rfl

@[simp] theorem objects_entry (before : List (List Glyph × Tree)) (key : List Glyph)
    (frames : List Frame) : objects (.entry before key :: frames) = objects frames + 1 :=
  List.countP_cons_of_pos rfl

namespace Reader

/-- A state that the reader can get into: only letters are due of a word, and nothing is open after
the document. -/
structure Steady (r : Reader) : Prop where
  word : ∀ rest t, r.mode = .word rest t → ∀ c ∈ rest, c.isAlpha
  done : ∀ t, r.mode = .done t → r.frames = []

/-- The state `r'` is reached from `r` by the text `s` as far as strings and braces are concerned. -/
structure Follows (r : Reader) (s : Text) (r' : Reader) : Prop where
  steady : Steady r'
  zone : r'.mode.zone = r.mode.zone.after s
  objects : objects r'.frames + (bareFrom r.mode.zone s).count '\x7d' =
    objects r.frames + (bareFrom r.mode.zone s).count '\x7b'

theorem steady_start : Steady start := ⟨nofun, nofun⟩

theorem Follows.refl {r : Reader} (h : Steady r) : Follows r [] r := ⟨h, rfl, rfl⟩

theorem Follows.trans {r₁ r₂ r₃ : Reader} {s t : Text} (h : Follows r₁ s r₂)
    (h' : Follows r₂ t r₃) : Follows r₁ (s ++ t) r₃ where
  steady := h'.steady
  zone := by rw [h'.zone, h.zone, Zone.after, Zone.after, Zone.after, List.foldl_append]
  objects := by
    have h₁ := h.objects
    have h₂ := h'.objects
    rw [h.zone] at h₂
    rw [bareFrom_append, List.count_append, List.count_append]
    omega

/-- A step outside strings. -/
theorem follows_bare {r r' : Reader} {c : Char} (hr : r.mode.zone = .outside) (hs : Steady r')
    (hzone : r'.mode.zone = Zone.next .outside c)
    (hobjects : objects r'.frames + [c].count '\x7d' = objects r.frames + [c].count '\x7b') :
    Follows r [c] r' := by
  refine ⟨hs, ?_, ?_⟩
  · rw [hr, hzone]
    rfl
  · rw [hr]
    exact hobjects

/-- A step in a string. -/
theorem follows_quoted {r r' : Reader} {c : Char} (hr : r.mode.zone ≠ .outside) (hs : Steady r')
    (hzone : r'.mode.zone = r.mode.zone.next c) (hobjects : objects r'.frames = objects r.frames) :
    Follows r [c] r' := by
  refine ⟨hs, hzone, ?_⟩
  rw [bareFrom, if_neg hr, hobjects]
  rfl

/-- True for what is neither a quote nor a brace. -/
def IsPlain (c : Char) : Prop := c ≠ '"' ∧ c ≠ '\x7b' ∧ c ≠ '\x7d'

instance : DecidablePred IsPlain := fun _ => inferInstanceAs (Decidable (_ ∧ _))

theorem isPlain_of_isSpace {c : Char} (h : isSpace c) : IsPlain c := by
  refine ⟨?_, ?_, ?_⟩ <;> rintro rfl <;> exact absurd h (by decide)

theorem isPlain_of_isDigit {c : Char} (h : c.isDigit) : IsPlain c := by
  refine ⟨?_, ?_, ?_⟩ <;> rintro rfl <;> exact absurd h (by decide)

theorem isPlain_of_isAlpha {c : Char} (h : c.isAlpha) : IsPlain c := by
  refine ⟨?_, ?_, ?_⟩ <;> rintro rfl <;> exact absurd h (by decide)

/-- A step over a plain character outside strings, with nothing opened or closed. -/
theorem follows_plain {r r' : Reader} {c : Char} (hc : IsPlain c) (hr : r.mode.zone = .outside)
    (hs : Steady r') (hzone : r'.mode.zone = .outside)
    (hobjects : objects r'.frames = objects r.frames) : Follows r [c] r' := by
  obtain ⟨hquote, hopen, hclose⟩ := hc
  apply follows_bare hr hs
  · rw [hzone, Zone.next, if_neg hquote]
  · simp [hobjects, hopen, hclose]

theorem steady_complete (t : Tree) (frames : List Frame) : Steady (complete t frames) := by
  cases frames with
  | nil => exact ⟨nofun, fun _ _ => rfl⟩
  | cons f frames => cases f <;> exact ⟨nofun, nofun⟩

theorem zone_complete (t : Tree) (frames : List Frame) :
    (complete t frames).mode.zone = .outside := by
  cases frames with
  | nil => rfl
  | cons f frames => cases f <;> rfl

theorem objects_complete (t : Tree) (frames : List Frame) :
    objects (complete t frames).frames = objects frames := by
  cases frames with
  | nil => rfl
  | cons f frames => cases f <;> simp [complete]

/-- A step that finishes a value which opened no object. -/
theorem follows_complete {r : Reader} {c : Char} {t : Tree} {frames : List Frame} (hc : IsPlain c)
    (hr : r.mode.zone = .outside) (hobjects : objects frames = objects r.frames) :
    Follows r [c] (complete t frames) :=
  follows_plain hc hr (steady_complete _ _) (zone_complete _ _) (by rw [objects_complete, hobjects])

theorem isPlain_of_stepNumber {part part' : NumberPart} {l l' : Literal} {c : Char}
    (h : stepNumber part l c = some (part', l')) : IsPlain c := by
  refine ⟨?_, ?_, ?_⟩ <;> rintro rfl <;> cases part <;> cases h

theorem steady_finishString (isKey : Bool) (gs : List Glyph) (frames : List Frame) :
    Steady (finishString isKey gs frames) := by
  cases isKey with
  | false => exact steady_complete _ _
  | true => exact ⟨nofun, nofun⟩

theorem zone_finishString (isKey : Bool) (gs : List Glyph) (frames : List Frame) :
    (finishString isKey gs frames).mode.zone = .outside := by
  cases isKey with
  | false => exact zone_complete _ _
  | true => rfl

theorem objects_finishString (isKey : Bool) (gs : List Glyph) (frames : List Frame) :
    objects (finishString isKey gs frames).frames = objects frames := by
  cases isKey with
  | false => exact objects_complete _ _
  | true => rfl

/-- A hexadecimal digit does not end a string and escapes nothing. -/
theorem next_inside_of_hexDigit? {c : Char} {d : Nat} (h : hexDigit? c = some d) :
    Zone.next .inside c = .inside := by
  have hquote : c ≠ '"' := by rintro rfl; cases h
  have hslash : c ≠ '\\' := by rintro rfl; cases h
  rw [Zone.next, if_neg hquote, if_neg hslash]

theorem zone_of_isBetween {m : Mode} (h : m.isBetween) : m.zone = .outside := by
  cases m <;> first | rfl | cases h

/-- **A step keeps the account** of strings and braces. -/
theorem step_follows {r r' : Reader} {c : Char} (hs : Steady r) (h : step r c = some r') :
    Follows r [c] r' := by
  replace h := steps_of_step h
  induction h with
  | space hm hc =>
    have hzone := zone_of_isBetween hm
    exact follows_plain (isPlain_of_isSpace hc) hzone hs hzone rfl
  | openArray => exact follows_plain (by decide) rfl ⟨nofun, nofun⟩ rfl (objects_items _ _)
  | openObject => exact follows_bare rfl ⟨nofun, nofun⟩ rfl (objects_members [] _)
  | openString => exact follows_bare rfl ⟨nofun, nofun⟩ rfl rfl
  | openWord hword =>
    obtain ⟨hfirst, hrest⟩ := isAlpha_of_mem_words hword
    refine follows_plain (isPlain_of_isAlpha hfirst) rfl ⟨?_, nofun⟩ rfl rfl
    rintro _ _ ⟨⟩
    exact List.all_eq_true.1 hrest
  | openNumber hc =>
    exact follows_plain (hc.elim (· ▸ by decide) isPlain_of_isDigit) rfl ⟨nofun, nofun⟩ rfl rfl
  | nextItem => exact follows_plain (by decide) rfl ⟨nofun, nofun⟩ rfl rfl
  | closeArray hm =>
    refine follows_complete (by decide) ?_ (objects_items _ _).symm
    rcases hm with rfl | rfl <;> rfl
  | openKey => exact follows_bare rfl ⟨nofun, nofun⟩ rfl rfl
  | endKey => exact follows_plain (by decide) rfl ⟨nofun, nofun⟩ rfl (by simp)
  | nextMember => exact follows_plain (by decide) rfl ⟨nofun, nofun⟩ rfl rfl
  | closeObject hm =>
    refine follows_bare ?_ (steady_complete _ _) (zone_complete _ _) (by simp [objects_complete])
    rcases hm with rfl | rfl <;> rfl
  | closeString =>
    exact follows_quoted nofun (steady_finishString _ _ _) (zone_finishString _ _ _)
      (objects_finishString _ _ _)
  | escape | escapeCode | escaped => exact follows_quoted nofun ⟨nofun, nofun⟩ rfl rfl
  | glyph hquote hslash =>
    refine follows_quoted nofun ⟨nofun, nofun⟩ ?_ rfl
    exact ((if_neg hquote).trans (if_neg hslash)).symm
  | digit hd | lastDigit hd =>
    exact follows_quoted nofun ⟨nofun, nofun⟩ (next_inside_of_hexDigit? hd).symm rfl
  | letter =>
    have hrest := hs.word _ _ rfl
    refine follows_plain (isPlain_of_isAlpha (hrest _ List.mem_cons_self)) rfl ⟨?_, nofun⟩ rfl rfl
    rintro _ _ ⟨⟩ d hd
    exact hrest d (List.mem_cons_of_mem _ hd)
  | lastLetter =>
    have hletter := hs.word _ _ rfl _ List.mem_cons_self
    exact follows_complete (isPlain_of_isAlpha hletter) rfl rfl
  | figure hl => exact follows_plain (isPlain_of_stepNumber hl) rfl ⟨nofun, nofun⟩ rfl rfl
  | afterNumber _ _ ih =>
    have hf := ih (steady_complete _ _)
    have hobjects := hf.objects
    rw [zone_complete, objects_complete] at hobjects
    exact ⟨hf.steady, hf.zone.trans (by rw [zone_complete]; rfl), hobjects⟩

/-- **A run keeps the account** of strings and braces. -/
theorem run_follows {r r' : Reader} {s : Text} (hs : Steady r) (h : run r s = some r') :
    Follows r s r' := by
  induction s generalizing r with
  | nil =>
    cases h
    exact .refl hs
  | cons c s ih =>
    obtain ⟨r₁, hstep, hrun⟩ := Option.bind_eq_some_iff.1 h
    have hfirst := step_follows hs hstep
    exact hfirst.trans (ih hfirst.steady hrun)

theorem run_append (r : Reader) (s t : Text) :
    run r (s ++ t) = (run r s).bind fun r' => run r' t := by
  induction s generalizing r with
  | nil => rfl
  | cons c s ih =>
    rw [List.cons_append, run, run, Option.bind_assoc]
    exact congrArg _ (funext ih)

/-- Nothing is open where a document may end. -/
theorem frames_eq_nil_of_finish? {r : Reader} {t : Tree} (hs : Steady r) (h : finish? r = some t) :
    r.frames = [] := by
  unfold finish? at h
  split at h
  · next hmode => exact hs.done _ hmode
  · next hframes => exact hframes
  · cases h

end Reader

/-! ## Braces of documents -/

open Reader

/-- In the beginning of a document the objects that are open are the braces that are not closed. -/
theorem objects_add_closes {s : Text} {r : Reader} (h : run start s = some r) :
    objects r.frames + closes s = opens s :=
  (run_follows steady_start h).objects.trans (Nat.zero_add _)

/-- **In a document every brace is closed.** -/
theorem opens_eq_closes_of_read? {s : Text} {t : Tree} (h : Tree.read? s = some t) :
    opens s = closes s := by
  obtain ⟨r, hrun, hfinish⟩ := Option.bind_eq_some_iff.1 h
  have hframes := frames_eq_nil_of_finish? (run_follows steady_start hrun).steady hfinish
  rw [← objects_add_closes hrun, hframes, objects_nil, Nat.zero_add]

/-- In the beginning of a document no more braces are closed than opened. -/
theorem closes_le_opens {s : Text} {t : Tree} (h : Tree.read? s = some t) (n : Nat) :
    closes (s.take n) ≤ opens (s.take n) := by
  obtain ⟨r, hrun, -⟩ := Option.bind_eq_some_iff.1 h
  rw [← List.take_append_drop n s, run_append] at hrun
  obtain ⟨r', hrun', -⟩ := Option.bind_eq_some_iff.1 hrun
  have := objects_add_closes hrun'
  omega

/-- A text one character longer has that character more outside strings, or nothing. -/
theorem bare_take_succ {t : Text} {n : Nat} {c : Char} (h : t[n]? = some c) :
    bare (t.take (n + 1)) =
      bare (t.take n) ++ bareFrom (Zone.after .outside (t.take n)) [c] := by
  rw [List.take_add_one, h, bare, Option.toList_some, bareFrom_append]
  rfl

/-- Where the last open brace is closed there is a closing brace. -/
theorem getElem?_of_closed {t : Text} {n : Nat} (hopen : closes (t.take n) < opens (t.take n))
    (hclosed : opens (t.take (n + 1)) = closes (t.take (n + 1))) : t[n]? = some '\x7d' := by
  cases hn : t[n]? with
  | none =>
    have hlength := List.getElem?_eq_none_iff.1 hn
    rw [List.take_of_length_le (by omega)] at hopen hclosed
    omega
  | some c =>
    refine congrArg some (Decidable.byContradiction fun hc => ?_)
    rw [opens, closes, bare_take_succ hn, List.count_append, List.count_append] at hclosed
    have hnone : (bareFrom (Zone.after .outside (t.take n)) [c]).count '\x7d' = 0 := by
      rw [bareFrom]
      split <;> simp [bareFrom, hc]
    rw [opens, closes] at hopen
    omega

/-- **The matching brace exists** in every document that starts with a brace. -/
theorem exists_closesAt {s : Text} {t : Tree} (h : Tree.read? s = some t) {blanks rest : Text}
    (hs : s = blanks ++ '\x7b' :: rest) (hquote : '"' ∉ blanks) (hbrace : '\x7b' ∉ blanks) :
    ∃ n, ClosesAt s n := by
  have hmem (m : Nat) : '\x7b' ∈ s.take m → blanks.length < m := by
    intro hm
    refine Nat.lt_of_not_le fun hle => hbrace ?_
    rw [hs, List.take_append_of_le_length hle] at hm
    exact List.mem_of_mem_take hm
  have hfirst : closes (s.take (blanks.length + 1)) < opens (s.take (blanks.length + 1)) := by
    obtain ⟨hbare, hafter⟩ := bare_eq_self hquote
    have htake : s.take blanks.length = blanks := by rw [hs, List.take_left]
    have hle := closes_le_opens h blanks.length
    have hnext := bare_take_succ (t := s) (n := blanks.length) (c := '\x7b') (by simp [hs])
    rw [htake, hafter] at hnext
    rw [opens, closes, htake, hbare, List.count_eq_zero.2 hbrace] at hle
    have hbrace' : bareFrom .outside ['\x7b'] = ['\x7b'] := rfl
    rw [opens, closes, hnext, hbare, hbrace', List.count_append, List.count_append,
      List.count_eq_zero.2 hbrace]
    simpa using hle
  have hlast : ∃ m, blanks.length < m ∧ opens (s.take m) = closes (s.take m) := by
    refine ⟨s.length, by simp [hs], ?_⟩
    rw [List.take_length]
    exact opens_eq_closes_of_read? h
  -- the least such `m` lies after the first brace, and the brace before it is the one
  classical
  obtain ⟨hlt, hclosed⟩ := Nat.find_spec hlast
  have hopen (m : Nat) (hm : m < Nat.find hlast) (hk : blanks.length < m) :
      closes (s.take m) < opens (s.take m) := by
    have hne : opens (s.take m) ≠ closes (s.take m) := fun heq => Nat.find_min hlast hm ⟨hk, heq⟩
    have hle := closes_le_opens h m
    omega
  obtain ⟨n, hn⟩ : ∃ n, Nat.find hlast = n + 1 := ⟨Nat.find hlast - 1, by omega⟩
  rw [hn] at hlt hclosed hopen
  have hlt' : blanks.length < n := by
    refine Nat.lt_of_le_of_ne (Nat.le_of_lt_succ hlt) ?_
    rintro rfl
    omega
  exact ⟨n, getElem?_of_closed (hopen n (Nat.lt_succ_self n) hlt') hclosed,
    fun m hm hmem' => hopen m (Nat.lt_succ_of_le hm) (hmem m hmem'), hclosed⟩

end MarkdownPrep.Json
