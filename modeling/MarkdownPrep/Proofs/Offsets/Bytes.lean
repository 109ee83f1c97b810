import MarkdownPrep.Text.Bytes

/-!
# Places in a text by offset

`At s i t` says that the offset `i` of the text `s` is a place between its characters, with `t` from
there on. At such places a text can be cut (`At.from?`, `At.slice?`), and at no others
(`slice?_eq_some_iff`). The bytes of an ASCII character are found where that character stands
(`At.isAt`), as no other character has such a byte.
-/

namespace MarkdownPrep.Text

/-! ## The bytes of characters -/

theorem utf8EncodeChar_of_lt {c : Char} (hc : c.toNat < 128) :
    String.utf8EncodeChar c = [c.toUInt8] := by
  have hval : c.val.toNat ≤ 127 := Nat.le_of_lt_succ hc
  rw [String.utf8EncodeChar]
  simp only [hval, if_true]
  rfl

theorem le_of_mem_utf8EncodeChar {c : Char} (hc : ¬ c.toNat < 128) {b : UInt8}
    (hb : b ∈ String.utf8EncodeChar c) : 128 ≤ b.toNat := by
  have hval : ¬ c.val.toNat ≤ 127 := fun h => hc (Nat.lt_succ_of_le h)
  rw [String.utf8EncodeChar] at hb
  simp only [hval, if_false] at hb
  split at hb
  · simp at hb
    obtain rfl | rfl := hb <;> simp <;> omega
  · split at hb
    · simp at hb
      obtain rfl | rfl | rfl := hb <;> simp <;> omega
    · simp at hb
      obtain rfl | rfl | rfl | rfl := hb <;> simp <;> omega

theorem toNat_toUInt8 {c : Char} (hc : c.toNat < 128) : c.toUInt8.toNat = c.toNat := by
  have : c.toUInt8.toNat = c.toNat % 256 := rfl
  omega

/-- An ASCII character is the only one with its byte. -/
theorem eq_toUInt8_iff {a c : Char} (ha : a.toNat < 128) {b : UInt8}
    (hb : b ∈ String.utf8EncodeChar c) : b = a.toUInt8 ↔ c = a := by
  by_cases hc : c.toNat < 128
  · rw [utf8EncodeChar_of_lt hc, List.mem_singleton] at hb
    rw [hb]
    refine ⟨fun h => Char.toNat_inj.1 ?_, fun h => by rw [h]⟩
    rw [← toNat_toUInt8 hc, h, toNat_toUInt8 ha]
  · have := le_of_mem_utf8EncodeChar hc hb
    refine iff_of_false (fun h => ?_) (fun h => hc (h ▸ ha))
    rw [h, toNat_toUInt8 ha] at this
    omega

theorem utf8Size_concat (s : Text) (c : Char) : utf8Size (s ++ [c]) = utf8Size s + c.utf8Size :=
  utf8Size_append s [c]

theorem utf8Size_of_lt {c : Char} (hc : c.toNat < 128) : c.utf8Size = 1 := by
  rw [← String.length_utf8EncodeChar, utf8EncodeChar_of_lt hc]
  rfl

/-! ## The bytes of a text -/

@[simp] theorem bytes_nil : bytes [] = [] := rfl

@[simp] theorem bytes_cons (c : Char) (s : Text) :
    bytes (c :: s) = String.utf8EncodeChar c ++ bytes s := rfl

@[simp] theorem bytes_append (s t : Text) : bytes (s ++ t) = bytes s ++ bytes t :=
  List.flatMap_append

@[simp] theorem length_bytes (s : Text) : s.bytes.length = utf8Size s := by
  induction s with
  | nil => rfl
  | cons c s ih => rw [bytes_cons, List.length_append, ih, String.length_utf8EncodeChar]; rfl

theorem length_le_utf8Size (s : Text) : s.length ≤ utf8Size s := by
  induction s with
  | nil => exact Nat.le_refl 0
  | cons c s ih =>
    have := c.utf8Size_pos
    rw [List.length_cons, utf8Size_cons]
    omega

theorem utf8Size_eq_zero_iff {s : Text} : utf8Size s = 0 ↔ s = [] := by
  refine ⟨fun h => ?_, fun h => h ▸ rfl⟩
  have := length_le_utf8Size s
  exact List.length_eq_zero_iff.1 (by omega)

theorem exists_bytes_cons (c : Char) (s : Text) :
    ∃ b bs, bytes (c :: s) = b :: bs ∧ b ∈ String.utf8EncodeChar c := by
  obtain ⟨b, bs, h⟩ := List.exists_cons_of_ne_nil (String.utf8EncodeChar_ne_nil (c := c))
  exact ⟨b, bs ++ bytes s, by rw [bytes_cons, h]; rfl, h ▸ List.mem_cons_self⟩

theorem utf8Size_of_ascii {s : Text} (h : ∀ c ∈ s, c.toNat < 128) : utf8Size s = s.length := by
  induction s with
  | nil => rfl
  | cons c s ih =>
    rw [List.forall_mem_cons] at h
    rw [utf8Size_cons, utf8Size_of_lt h.1, ih h.2, List.length_cons, Nat.add_comm]

/-- A run of ASCII characters of one kind is found by their bytes. -/
theorem length_takeWhile_bytes {p : Char → Bool} {q : UInt8 → Bool}
    (hp : ∀ c, p c → c.toNat < 128) (hq : ∀ c, ∀ b ∈ String.utf8EncodeChar c, q b = p c)
    (s : Text) : (s.bytes.takeWhile q).length = (s.takeWhile p).length := by
  induction s with
  | nil => rfl
  | cons c s ih =>
    by_cases hc : p c
    · have hbytes := utf8EncodeChar_of_lt (hp c hc)
      have hbyte : q c.toUInt8 := by
        rw [hq c _ (hbytes ▸ List.mem_singleton_self _), hc]
      rw [bytes_cons, hbytes, List.singleton_append, List.takeWhile_cons_of_pos hbyte,
        List.takeWhile_cons_of_pos hc, List.length_cons, List.length_cons, ih]
    · obtain ⟨b, bs, hbytes, hb⟩ := exists_bytes_cons c s
      rw [hbytes, List.takeWhile_cons_of_neg (by rwa [hq c b hb]), List.takeWhile_cons_of_neg hc]
      rfl

/-! ## Cutting -/

theorem splitAt?_append (t u : Text) : splitAt? (utf8Size t) (t ++ u) = some (t, u) := by
  induction t with
  | nil => cases u <;> simp [splitAt?]
  | cons c t ih =>
    have := c.utf8Size_pos
    rw [utf8Size_cons, List.cons_append, splitAt?, if_neg (by omega), if_pos (by omega),
      Nat.add_sub_cancel_left, ih]
    rfl

theorem append_inj_of_utf8Size {t t' u u' : Text} (h : t ++ u = t' ++ u')
    (hsize : utf8Size t = utf8Size t') : t = t' ∧ u = u' := by
  have hsplit := splitAt?_append t u
  rw [h, hsize, splitAt?_append] at hsplit
  cases hsplit
  exact ⟨rfl, rfl⟩

/-- A text is cut at an offset if a place between its characters is there. -/
theorem splitAt?_eq_some_iff {i : Nat} {s t u : Text} :
    splitAt? i s = some (t, u) ↔ s = t ++ u ∧ i = utf8Size t := by
  refine ⟨fun h => ?_, fun ⟨hs, hi⟩ => hs ▸ hi ▸ splitAt?_append t u⟩
  induction s generalizing i t with
  | nil =>
    rw [splitAt?] at h
    split at h
    · next hi => cases h; exact ⟨rfl, hi⟩
    · cases h
  | cons c s ih =>
    rw [splitAt?] at h
    split at h
    · next hi => cases h; exact ⟨rfl, hi⟩
    · split at h
      · next hle =>
        obtain ⟨⟨t', u'⟩, hsplit, heq⟩ := Option.map_eq_some_iff.1 h
        cases heq
        obtain ⟨rfl, hi⟩ := ih hsplit
        exact ⟨rfl, by rw [utf8Size_cons]; omega⟩
      · cases h

theorem from?_eq_some_iff {i : Nat} {s u : Text} :
    from? i s = some u ↔ ∃ t, s = t ++ u ∧ i = utf8Size t := by
  rw [from?, Option.map_eq_some_iff]
  constructor
  · rintro ⟨⟨t, u⟩, h, rfl⟩
    exact ⟨t, splitAt?_eq_some_iff.1 h⟩
  · rintro ⟨t, h⟩
    exact ⟨(t, u), splitAt?_eq_some_iff.2 h, rfl⟩

/-- A stretch is cut out between two offsets that are places between characters of the text, the
second not before the first. -/
theorem slice?_eq_some_iff {i j : Nat} {s u : Text} :
    slice? i j s = some u ↔ ∃ t v, s = t ++ u ++ v ∧ i = utf8Size t ∧ j = utf8Size (t ++ u) := by
  rw [slice?]
  constructor
  · intro h
    split at h
    · next hle =>
      obtain ⟨r, hr, hcut⟩ := Option.bind_eq_some_iff.1 h
      obtain ⟨t, rfl, rfl⟩ := from?_eq_some_iff.1 hr
      obtain ⟨⟨u', v⟩, hsplit, rfl⟩ := Option.map_eq_some_iff.1 hcut
      obtain ⟨rfl, hj⟩ := splitAt?_eq_some_iff.1 hsplit
      refine ⟨t, v, (List.append_assoc _ _ _).symm, rfl, ?_⟩
      rw [utf8Size_append, ← hj]
      omega
    · cases h
  · rintro ⟨t, v, rfl, rfl, rfl⟩
    have hfrom : from? (utf8Size t) (t ++ u ++ v) = some (u ++ v) :=
      from?_eq_some_iff.2 ⟨t, List.append_assoc t u v, rfl⟩
    rw [utf8Size_append, if_pos (Nat.le_add_right _ _), Nat.add_sub_cancel_left, hfrom,
      Option.bind_some, splitAt?_append]
    rfl

theorem slice?_append (t u v : Text) :
    slice? (utf8Size t) (utf8Size (t ++ u)) (t ++ (u ++ v)) = some u :=
  slice?_eq_some_iff.2 ⟨t, v, (List.append_assoc t u v).symm, rfl, rfl⟩

/-! ## Places -/

/-- From the offset `i` on the text `s` goes on with `t`. -/
def At (s : Text) (i : Nat) (t : Text) : Prop := ∃ u, s = u ++ t ∧ utf8Size u = i

namespace At

variable {s t u v : Text} {i j : Nat} {a c : Char}

theorem start (s : Text) : At s 0 s := ⟨[], rfl, rfl⟩

theorem suffix (h : At s i t) : t <:+ s := by
  obtain ⟨u, rfl, -⟩ := h
  exact List.suffix_append u t

theorem append (h : At s i (t ++ u)) : At s (i + utf8Size t) u := by
  obtain ⟨v, rfl, rfl⟩ := h
  exact ⟨v ++ t, by simp, utf8Size_append v t⟩

theorem cons (h : At s i (c :: t)) : At s (i + c.utf8Size) t := append (t := [c]) h

theorem cons_of_lt (h : At s i (c :: t)) (hc : c.toNat < 128) : At s (i + 1) t :=
  utf8Size_of_lt hc ▸ h.cons

theorem dropWhile (h : At s i t) {p : Char → Bool} (hp : ∀ c, p c → c.toNat < 128) :
    At s (i + (t.takeWhile p).length) (t.dropWhile p) := by
  have hascii : ∀ c ∈ t.takeWhile p, c.toNat < 128 := fun c hc =>
    hp c (List.all_eq_true.1 List.all_takeWhile c hc)
  rw [← utf8Size_of_ascii hascii]
  exact At.append (by rwa [List.takeWhile_append_dropWhile])

theorem length_bytes (h : At s i t) : s.bytes.length = i + utf8Size t := by
  obtain ⟨u, rfl, rfl⟩ := h
  rw [Text.length_bytes, utf8Size_append]

theorem drop_bytes (h : At s i t) : s.bytes.drop i = t.bytes := by
  obtain ⟨u, rfl, rfl⟩ := h
  rw [bytes_append, List.drop_left' (Text.length_bytes u)]

theorem byte? (h : At s i t) : byte? i s = t.bytes.head? := by
  rw [Text.byte?, ← h.drop_bytes, List.head?_drop]

theorem bytesFrom? (h : At s i t) : bytesFrom? i s = some t.bytes := by
  rw [Text.bytesFrom?, if_pos (by rw [h.length_bytes]; omega), h.drop_bytes]

theorem from? (h : At s i t) : from? i s = some t := by
  obtain ⟨u, rfl, rfl⟩ := h
  exact from?_eq_some_iff.2 ⟨u, rfl, rfl⟩

theorem slice? (h : At s i (t ++ u)) : slice? i (i + utf8Size t) s = some t := by
  obtain ⟨v, rfl, rfl⟩ := h
  rw [← utf8Size_append, slice?_append]

theorem isAt (h : At s i t) (ha : a.toNat < 128) : isAt a i s = decide (t.head? = some a) := by
  rw [Text.isAt, h.byte?]
  cases t with
  | nil => rfl
  | cons c t =>
    obtain ⟨b, bs, hbytes, hb⟩ := exists_bytes_cons c t
    simp [hbytes, eq_toUInt8_iff ha hb]

/-- Inside a character there is no ASCII character, nor is there another one where it stands. -/
theorem isAt_inside (h : At s i (c :: t)) (ha : a.toNat < 128) (hc : c ≠ a)
    (hj : j < c.utf8Size) : Text.isAt a (i + j) s = false := by
  have hlt : j < (String.utf8EncodeChar c).length := by rwa [String.length_utf8EncodeChar]
  have hbyte : Text.byte? (i + j) s = some ((String.utf8EncodeChar c)[j]) := by
    rw [Text.byte?, ← List.getElem?_drop, h.drop_bytes, bytes_cons,
      List.getElem?_append_left hlt, List.getElem?_eq_getElem hlt]
  rw [Text.isAt, hbyte]
  simpa using mt (eq_toUInt8_iff ha (List.getElem_mem hlt)).1 hc

/-- Where an ASCII character is found, a place with that character is. -/
theorem exists_of_isAt (ha : a.toNat < 128) (h : Text.isAt a i s) : ∃ t, At s i (a :: t) := by
  suffices hfrom : ∀ {j t}, At s j t → j ≤ i → ∃ t, At s i (a :: t) from
    hfrom (.start s) (Nat.zero_le i)
  intro j t hat hle
  induction t generalizing j with
  | nil =>
    -- past the end of the text no byte is
    have hlength := hat.length_bytes
    rw [Text.isAt, Text.byte?, List.getElem?_eq_none (by simp at hlength ⊢; omega)] at h
    cases h
  | cons c t ih =>
    by_cases hlt : i < j + c.utf8Size
    · obtain ⟨k, rfl⟩ := Nat.exists_eq_add_of_le hle
      by_cases hc : c = a
      · subst hc
        rw [utf8Size_of_lt ha] at hlt
        obtain rfl : k = 0 := by omega
        exact ⟨t, hat⟩
      · rw [hat.isAt_inside ha hc (Nat.lt_of_add_lt_add_left hlt)] at h
        cases h
    · exact ih hat.cons (Nat.le_of_not_lt hlt)

theorem lt_length_bytes (h : At s i (c :: t)) (hj : j < c.utf8Size) : i + j < s.bytes.length := by
  rw [h.length_bytes, utf8Size_cons]
  omega

theorem not_length_le (h : At s i (c :: t)) : ¬ s.bytes.length ≤ i :=
  Nat.not_le.2 (h.lt_length_bytes c.utf8Size_pos)

/-- A loop over the bytes of a text that does nothing where no ASCII character but `c` stands goes
over the character `c` in as many steps as it has bytes. -/
theorem skip {α : Type} {f : Nat → Nat → α} (h : At s i (c :: t))
    (hf : ∀ fuel j, j < s.bytes.length →
      (∀ a : Char, a.toNat < 128 → c ≠ a → Text.isAt a j s = false) →
      f (fuel + 1) j = f fuel (j + 1))
    (fuel : Nat) : f (fuel + c.utf8Size) i = f fuel (i + c.utf8Size) := by
  have key : ∀ n ≤ c.utf8Size, f (fuel + n) (i + (c.utf8Size - n)) = f fuel (i + c.utf8Size) := by
    intro n
    induction n with
    | zero => exact fun _ => rfl
    | succ n ih =>
      intro hn
      have hlt : c.utf8Size - (n + 1) < c.utf8Size := by omega
      have hnext : i + (c.utf8Size - (n + 1)) + 1 = i + (c.utf8Size - n) := by omega
      rw [← Nat.add_assoc, hf _ _ (h.lt_length_bytes hlt) fun a ha hc => h.isAt_inside ha hc hlt,
        hnext, ih (Nat.le_of_succ_le hn)]
  simpa using key c.utf8Size (Nat.le_refl _)

end At

/-- The byte before a place tells an ASCII character that is there. -/
theorem exists_byteBefore? {t : Text} (ht : t ≠ []) (u : Text) :
    ∃ b, byteBefore? (utf8Size t) (t ++ u) = some b ∧
      ∀ a : Char, a.toNat < 128 → (b = a.toUInt8 ↔ t.getLast? = some a) := by
  obtain ⟨t, c, rfl⟩ : ∃ t' c, t = t' ++ [c] :=
    ⟨t.dropLast, t.getLast ht, (List.dropLast_concat_getLast ht).symm⟩
  have hpos := c.utf8Size_pos
  have hlast : ∃ b ∈ String.utf8EncodeChar c,
      (String.utf8EncodeChar c)[c.utf8Size - 1]? = some b := by
    have hlt : c.utf8Size - 1 < (String.utf8EncodeChar c).length := by
      rw [String.length_utf8EncodeChar]
      omega
    exact ⟨_, List.getElem_mem hlt, List.getElem?_eq_getElem hlt⟩
  obtain ⟨b, hb, hlast⟩ := hlast
  refine ⟨b, ?_, fun a ha => ?_⟩
  · have hsize := utf8Size_concat t c
    rw [byteBefore?, if_neg (by omega), byte?, bytes_append, bytes_append, bytes_cons, bytes_nil,
      List.append_nil, List.getElem?_append_left, List.getElem?_append_right, length_bytes, hsize]
    · rw [← hlast]
      congr 1
      omega
    · rw [length_bytes]
      omega
    · rw [List.length_append, length_bytes, String.length_utf8EncodeChar]
      omega
  · rw [eq_toUInt8_iff ha hb, List.getLast?_concat, Option.some.injEq]

end MarkdownPrep.Text
