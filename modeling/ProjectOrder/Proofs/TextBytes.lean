import Mathlib
import ProjectOrder.Text.Utf8

/-! Text that is written as UTF-8 is read again as it was, and nothing is read but what writes a text. -/
namespace ProjectOrder.Text.Utf8

/-- A byte with six more bits goes on with the character that is read. -/
theorem readContinuation_cons {low high : UInt8} {value k n : Nat} (hk : k < 0x40)
    (hlow : low.toNat ≤ 0x80 + k) (hhigh : 0x80 + k ≤ high.toNat) (r : List UInt8) :
    readContinuation low high value (n + 1) (UInt8.ofNat (0x80 + k) :: r) =
      readContinuation 0x80 0xBF (value * 64 + k) n r := by
  have hb : (UInt8.ofNat (0x80 + k)).toNat = 0x80 + k := by
    rw [UInt8.toNat_ofNat']
    omega
  rw [readContinuation]
  simp only [UInt8.le_iff_toNat_le, hb, hlow, hhigh, decide_true, Bool.and_self, if_true,
    Nat.add_sub_cancel_left]

/-- The bytes that a character starts with and those that may follow, by the number of the first. -/
theorem readChar_ofNat {n : Nat} (hn : n < 0x100) (r : List UInt8) :
    readChar (UInt8.ofNat n) r =
      Prod.map (Option.map Char.ofNat) id
        (if n < 0x80 then (some n, r)
        else if 0xC2 ≤ n ∧ n ≤ 0xDF then readContinuation 0x80 0xBF (n - 0xC0) 1 r
        else if n = 0xE0 then readContinuation 0xA0 0xBF 0 2 r
        else if n = 0xED then readContinuation 0x80 0x9F 0xD 2 r
        else if 0xE1 ≤ n ∧ n ≤ 0xEF then readContinuation 0x80 0xBF (n - 0xE0) 2 r
        else if n = 0xF0 then readContinuation 0x90 0xBF 0 3 r
        else if n = 0xF4 then readContinuation 0x80 0x8F 4 3 r
        else if 0xF1 ≤ n ∧ n ≤ 0xF3 then readContinuation 0x80 0xBF (n - 0xF0) 3 r
        else (none, r)) := by
  have hb : (UInt8.ofNat n).toNat = n := by
    rw [UInt8.toNat_ofNat']
    omega
  simp only [readChar, UInt8.lt_iff_toNat_lt, UInt8.le_iff_toNat_le, beq_iff_eq,
    ← UInt8.toNat_inj, hb, Bool.and_eq_true, decide_eq_true_eq]
  rfl

section Chars
variable {n : Nat}

theorem readChar_two (h : 0x80 ≤ n) (h' : n < 0x800) (r : List UInt8) :
    readChar (UInt8.ofNat (0xC0 + n / 0x40 % 0x40)) (UInt8.ofNat (0x80 + n / 1 % 0x40) :: r) =
      (some (Char.ofNat n), r) := by
  have hvalue : (0xC0 + n / 0x40 % 0x40 - 0xC0) * 64 + n / 1 % 0x40 = n := by omega
  rw [readChar_ofNat (by omega), if_neg (by omega), if_pos (by omega),
    readContinuation_cons (by omega) (by change 0x80 ≤ _; omega) (by change _ ≤ 0xBF; omega), hvalue]
  rfl

/-- The second byte of three keeps out what two bytes can write, and surrogates. -/
theorem readChar_three (h : 0x800 ≤ n) (h' : n < 0x10000) (hs : n < 0xD800 ∨ 0xDFFF < n)
    (r : List UInt8) :
    readChar (UInt8.ofNat (0xE0 + n / 0x1000 % 0x40))
        (UInt8.ofNat (0x80 + n / 0x40 % 0x40) :: UInt8.ofNat (0x80 + n / 1 % 0x40) :: r) =
      (some (Char.ofNat n), r) := by
  have rest : ∀ value, (value * 64 + n / 0x40 % 0x40) * 64 + n / 1 % 0x40 = n →
      Prod.map (Option.map Char.ofNat) id (readContinuation 0x80 0xBF
        (value * 64 + n / 0x40 % 0x40) 1 (UInt8.ofNat (0x80 + n / 1 % 0x40) :: r)) =
          (some (Char.ofNat n), r) := by
    intro value hvalue
    rw [readContinuation_cons (by omega) (by change 0x80 ≤ _; omega) (by change _ ≤ 0xBF; omega),
      hvalue]
    rfl
  rw [readChar_ofNat (by omega), if_neg (by omega), if_neg (by omega)]
  split_ifs with h0 hd hm
  · rw [readContinuation_cons (by omega) (by change 0xA0 ≤ _; omega) (by change _ ≤ 0xBF; omega)]
    exact rest _ (by omega)
  · rw [readContinuation_cons (by omega) (by change 0x80 ≤ _; omega) (by change _ ≤ 0x9F; omega)]
    exact rest _ (by omega)
  · rw [readContinuation_cons (by omega) (by change 0x80 ≤ _; omega) (by change _ ≤ 0xBF; omega)]
    exact rest _ (by omega)
  all_goals omega

/-- The second byte of four keeps out what three bytes can write, and what is past the last
character. -/
theorem readChar_four (h : 0x10000 ≤ n) (h' : n < 0x110000) (r : List UInt8) :
    readChar (UInt8.ofNat (0xF0 + n / 0x40000 % 0x40))
        (UInt8.ofNat (0x80 + n / 0x1000 % 0x40) :: UInt8.ofNat (0x80 + n / 0x40 % 0x40) ::
          UInt8.ofNat (0x80 + n / 1 % 0x40) :: r) =
      (some (Char.ofNat n), r) := by
  have rest : ∀ value,
      ((value * 64 + n / 0x1000 % 0x40) * 64 + n / 0x40 % 0x40) * 64 + n / 1 % 0x40 = n →
      Prod.map (Option.map Char.ofNat) id (readContinuation 0x80 0xBF
        (value * 64 + n / 0x1000 % 0x40) 2 (UInt8.ofNat (0x80 + n / 0x40 % 0x40) ::
          UInt8.ofNat (0x80 + n / 1 % 0x40) :: r)) = (some (Char.ofNat n), r) := by
    intro value hvalue
    rw [readContinuation_cons (by omega) (by change 0x80 ≤ _; omega) (by change _ ≤ 0xBF; omega),
      readContinuation_cons (by omega) (by change 0x80 ≤ _; omega) (by change _ ≤ 0xBF; omega),
      hvalue]
    rfl
  rw [readChar_ofNat (by omega), if_neg (by omega), if_neg (by omega), if_neg (by omega),
    if_neg (by omega), if_neg (by omega)]
  split_ifs with h0 h4 hm
  · rw [readContinuation_cons (by omega) (by change 0x90 ≤ _; omega) (by change _ ≤ 0xBF; omega)]
    exact rest _ (by omega)
  · rw [readContinuation_cons (by omega) (by change 0x80 ≤ _; omega) (by change _ ≤ 0x8F; omega)]
    exact rest _ (by omega)
  · rw [readContinuation_cons (by omega) (by change 0x80 ≤ _; omega) (by change _ ≤ 0xBF; omega)]
    exact rest _ (by omega)
  · omega

end Chars

theorem toNat_bounds (c : Char) : c.toNat < 0xD800 ∨ 0xDFFF < c.toNat ∧ c.toNat < 0x110000 :=
  c.valid

/-- A character is read back from its bytes, whatever follows them. -/
theorem readAll_encodeChar (c : Char) (r : List UInt8) :
    readAll (encodeChar c ++ r) = some c :: readAll r := by
  have hbounds := toNat_bounds c
  have hread : ∃ lead more, encodeChar c = lead :: more ∧
      readChar lead (more ++ r) = (some c, r) := by
    simp only [encodeChar]
    split_ifs with h1 h2 h3
    · refine ⟨_, _, rfl, ?_⟩
      have hone : readChar (UInt8.ofNat c.toNat) r = (some (Char.ofNat c.toNat), r) := by
        rw [readChar_ofNat (by omega), if_pos h1]
        rfl
      simpa using hone
    · refine ⟨_, _, rfl, ?_⟩
      simpa using readChar_two (by omega) h2 r
    · refine ⟨_, _, rfl, ?_⟩
      simpa using readChar_three (by omega) h3 (by omega) r
    · refine ⟨_, _, rfl, ?_⟩
      simpa using @readChar_four c.toNat (by omega) (by omega) r
  obtain ⟨lead, more, hc, hr⟩ := hread
  rw [hc, List.cons_append, readAll, hr]

theorem readAll_encode (s : List Char) : readAll (encode s) = s.map some := by
  induction s with
  | nil => simp [encode, readAll]
  | cons c s ih =>
    rw [encode, List.flatMap_cons, readAll_encodeChar, List.map_cons, ← encode, ih]

theorem decode?_encode (s : List Char) : decode? (encode s) = some s := by
  rw [decode?, readAll_encode]
  induction s with
  | nil => rfl
  | cons c s ih => simp [List.mapM_cons, ih]

/-- The bytes that hold the last `k` groups of six bits of a number. -/
def continuation : (k : Nat) → (n : Nat) → List UInt8
  | 0, _ => []
  | k + 1, n => UInt8.ofNat (0x80 + n / 0x40 ^ k % 0x40) :: continuation k n

theorem exists_of_readContinuation_succ {low high : UInt8} {value k n : Nat} {r rest : List UInt8}
    (h : readContinuation low high value (k + 1) r = (some n, rest)) :
    ∃ b more, r = b :: more ∧ low ≤ b ∧ b ≤ high ∧
      readContinuation 0x80 0xBF (value * 64 + (b.toNat - 0x80)) k more = (some n, rest) := by
  cases r with
  | nil => cases h
  | cons b more =>
    rw [readContinuation] at h
    split_ifs at h with hb
    · rw [Bool.and_eq_true, decide_eq_true_eq, decide_eq_true_eq] at hb
      exact ⟨b, more, rfl, hb.1, hb.2, h⟩
    · cases h

/-- The bytes that go on with a character are those of the number that is read, and only their bits
are new in it. -/
theorem readContinuation_eq_some {low high : UInt8} {value k n : Nat} {r rest : List UInt8}
    (hlow : 0x80 ≤ low.toNat) (hhigh : high.toNat ≤ 0xBF)
    (h : readContinuation low high value k r = (some n, rest)) :
    r = continuation k n ++ rest ∧ n / 0x40 ^ k = value := by
  induction k generalizing low high value r with
  | zero =>
    cases h
    exact ⟨rfl, by simp⟩
  | succ k ih =>
    obtain ⟨b, more, rfl, hb, hb', h⟩ := exists_of_readContinuation_succ h
    rw [UInt8.le_iff_toNat_le] at hb hb'
    obtain ⟨rfl, hn⟩ := ih (by decide) (by decide) h
    have hbyte : b = UInt8.ofNat (0x80 + n / 0x40 ^ k % 0x40) := by
      rw [← UInt8.toNat_inj, UInt8.toNat_ofNat', hn]
      omega
    refine ⟨by rw [continuation, ← hbyte, List.cons_append], ?_⟩
    rw [Nat.pow_succ, ← Nat.div_div_eq_div_mul, hn]
    omega

/-- The bounds of the byte after the first are bounds of the number that is read. -/
theorem bounds_of_readContinuation {low high : UInt8} {value k n : Nat} {r rest : List UInt8}
    (hlow : 0x80 ≤ low.toNat) (h : readContinuation low high value (k + 1) r = (some n, rest)) :
    value * 64 + low.toNat ≤ n / 0x40 ^ k + 0x80 ∧ n / 0x40 ^ k + 0x80 ≤ value * 64 + high.toNat := by
  obtain ⟨b, more, rfl, hb, hb', h⟩ := exists_of_readContinuation_succ h
  rw [UInt8.le_iff_toNat_le] at hb hb'
  obtain ⟨-, hn⟩ := readContinuation_eq_some (by decide) (by decide) h
  omega

section Encoding
variable {n : Nat}

theorem toNat_ofNat (h : n < 0xD800 ∨ 0xDFFF < n ∧ n < 0x110000) : (Char.ofNat n).toNat = n := by
  rw [Char.toNat_ofNat, if_pos h]

theorem encodeChar_one (h : n < 0x80) : encodeChar (Char.ofNat n) = [UInt8.ofNat n] := by
  rw [encodeChar, toNat_ofNat (by omega)]
  exact if_pos h

theorem encodeChar_two (h : 0x80 ≤ n) (h' : n < 0x800) : encodeChar (Char.ofNat n) =
    UInt8.ofNat (0xC0 + n / 0x40) :: continuation 1 n := by
  rw [encodeChar, toNat_ofNat (by omega)]
  simp only [if_neg (show ¬ n < 0x80 by omega), if_pos h', continuation]
  rw [Nat.mod_eq_of_lt (show n / 0x40 < 0x40 by omega)]
  rfl

theorem encodeChar_three (h : 0x800 ≤ n) (h' : n < 0x10000) (hs : n < 0xD800 ∨ 0xDFFF < n) :
    encodeChar (Char.ofNat n) = UInt8.ofNat (0xE0 + n / 0x40 ^ 2) :: continuation 2 n := by
  rw [encodeChar, toNat_ofNat (by omega)]
  simp only [if_neg (show ¬ n < 0x80 by omega), if_neg (show ¬ n < 0x800 by omega), if_pos h',
    continuation]
  rw [Nat.mod_eq_of_lt (show n / 0x1000 < 0x40 by omega)]
  rfl

theorem encodeChar_four (h : 0x10000 ≤ n) (h' : n < 0x110000) :
    encodeChar (Char.ofNat n) = UInt8.ofNat (0xF0 + n / 0x40 ^ 3) :: continuation 3 n := by
  rw [encodeChar, toNat_ofNat (by omega)]
  simp only [if_neg (show ¬ n < 0x80 by omega), if_neg (show ¬ n < 0x800 by omega),
    if_neg (show ¬ n < 0x10000 by omega), continuation]
  rw [Nat.mod_eq_of_lt (show n / 0x40000 < 0x40 by omega)]
  rfl

/-- The characters are written as the standard library writes them. -/
theorem encodeChar_eq (c : Char) : encodeChar c = String.utf8EncodeChar c := by
  have hbounds := toNat_bounds c
  have hval : c.val.toNat = c.toNat := rfl
  simp only [encodeChar, String.utf8EncodeChar, hval, ← Nat.lt_succ_iff, Nat.succ_eq_add_one,
    Nat.reduceAdd]
  split_ifs with h1 h2 h3
  · rfl
  · simp only [List.cons.injEq, and_true]
    exact ⟨congrArg _ (by omega), congrArg _ (by omega)⟩
  · simp only [List.cons.injEq, and_true]
    exact ⟨congrArg _ (by omega), congrArg _ (by omega), congrArg _ (by omega)⟩
  · simp only [List.cons.injEq, and_true]
    exact ⟨congrArg _ (by omega), congrArg _ (by omega), congrArg _ (by omega),
      congrArg _ (by omega)⟩

end Encoding

theorem exists_of_map_ofNat {read : Option Nat × List UInt8} {c : Char} {rest : List UInt8}
    (h : Prod.map (Option.map Char.ofNat) id read = (some c, rest)) :
    ∃ n, read = (some n, rest) ∧ Char.ofNat n = c := by
  obtain ⟨value, remaining⟩ := read
  rw [Prod.map_apply, Prod.mk.injEq, Option.map_eq_some_iff] at h
  obtain ⟨⟨n, rfl, hc⟩, rfl⟩ := h
  exact ⟨n, rfl, hc⟩

section Reading
variable {low high : UInt8} {value n : Nat} {r rest : List UInt8}

theorem encodeChar_two_of_read (hvalue : 2 ≤ value) (hvalue' : value < 0x20)
    (h : readContinuation 0x80 0xBF value 1 r = (some n, rest)) :
    UInt8.ofNat (0xC0 + value) :: r = encodeChar (Char.ofNat n) ++ rest := by
  obtain ⟨rfl, hn⟩ := readContinuation_eq_some (by decide) (by decide) h
  rw [encodeChar_two (by omega) (by omega), List.cons_append, ← hn, Nat.pow_one]

/-- The bounds of the second byte of three keep out what two bytes can write, and surrogates. -/
theorem encodeChar_three_of_read (hvalue : value < 0x10) (hlow : 0x80 ≤ low.toNat)
    (hhigh : high.toNat ≤ 0xBF) (hshort : 0xA0 ≤ value * 0x40 + low.toNat)
    (hsurrogate : value * 0x40 + high.toNat < 0x3E0 ∨ 0x400 ≤ value * 0x40 + low.toNat)
    (h : readContinuation low high value 2 r = (some n, rest)) :
    UInt8.ofNat (0xE0 + value) :: r = encodeChar (Char.ofNat n) ++ rest := by
  obtain ⟨hbound, hbound'⟩ := bounds_of_readContinuation hlow h
  obtain ⟨rfl, hn⟩ := readContinuation_eq_some hlow hhigh h
  rw [encodeChar_three (by omega) (by omega) (by omega), List.cons_append, ← hn]

theorem encodeChar_four_of_read (hlow : 0x80 ≤ low.toNat) (hhigh : high.toNat ≤ 0xBF)
    (hshort : 0x90 ≤ value * 0x40 + low.toNat) (hlast : value * 0x40 + high.toNat < 0x190)
    (h : readContinuation low high value 3 r = (some n, rest)) :
    UInt8.ofNat (0xF0 + value) :: r = encodeChar (Char.ofNat n) ++ rest := by
  obtain ⟨hbound, hbound'⟩ := bounds_of_readContinuation hlow h
  obtain ⟨rfl, hn⟩ := readContinuation_eq_some hlow hhigh h
  rw [encodeChar_four (by omega) (by omega), List.cons_append, ← hn]

end Reading

/-- What is read as a character is what writes it. -/
theorem eq_encodeChar_append {lead : UInt8} {r rest : List UInt8} {c : Char}
    (h : readChar lead r = (some c, rest)) : lead :: r = encodeChar c ++ rest := by
  obtain ⟨l, hl, rfl⟩ : ∃ l, l < 0x100 ∧ lead = UInt8.ofNat l :=
    ⟨lead.toNat, lead.toNat_lt, UInt8.ofNat_toNat.symm⟩
  rw [readChar_ofNat hl] at h
  obtain ⟨n, hread, rfl⟩ := exists_of_map_ofNat h
  -- One case for each range of lead bytes, in the order in which they are tested.
  split_ifs at hread with h1 h2 h3 h4 h5 h6 h7 h8
  · cases hread
    rw [encodeChar_one h1, List.singleton_append]
  · have hlead := encodeChar_two_of_read (by omega) (by omega) hread
    rwa [show 0xC0 + (l - 0xC0) = l by omega] at hlead
  · subst h3
    exact encodeChar_three_of_read (by decide) (by decide) (by decide) (by decide) (by decide) hread
  · subst h4
    exact encodeChar_three_of_read (by decide) (by decide) (by decide) (by decide) (by decide) hread
  · have hlead := encodeChar_three_of_read (by omega) (by decide) (by decide)
      (by change 0xA0 ≤ _ + 0x80; omega) (by change _ + 0xBF < _ ∨ _ ≤ _ + 0x80; omega) hread
    rwa [show 0xE0 + (l - 0xE0) = l by omega] at hlead
  · subst h6
    exact encodeChar_four_of_read (by decide) (by decide) (by decide) (by decide) hread
  · subst h7
    exact encodeChar_four_of_read (by decide) (by decide) (by decide) (by decide) hread
  · have hlead := encodeChar_four_of_read (by decide) (by decide)
      (by change 0x90 ≤ _ + 0x80; omega) (by change _ + 0xBF < _; omega) hread
    rwa [show 0xF0 + (l - 0xF0) = l by omega] at hlead
  · cases hread

theorem eq_encode_of_readAll {bytes : List UInt8} {text : List Char}
    (h : readAll bytes = text.map some) : bytes = encode text := by
  fun_induction readAll bytes generalizing text with
  | case1 =>
    rw [List.nil_eq, List.map_eq_nil_iff] at h
    rw [h]
    rfl
  | case2 lead r ih =>
    obtain ⟨c, more, rfl, hc, hmore⟩ := List.map_eq_cons_iff.mp h.symm
    rw [eq_encodeChar_append (Prod.ext hc.symm rfl), encode, List.flatMap_cons, ← encode,
      ← ih hmore.symm]

theorem eq_map_some_of_mapM {α : Type} {items : List (Option α)} {values : List α}
    (h : items.mapM id = some values) : items = values.map some := by
  induction items generalizing values with
  | nil =>
    cases h
    rfl
  | cons item items ih =>
    simp only [List.mapM_cons, id_eq, Option.bind_eq_bind, Option.pure_def,
      Option.bind_eq_some_iff, Option.some.injEq] at h
    obtain ⟨value, rfl, more, hmore, rfl⟩ := h
    rw [ih hmore, List.map_cons]

/-- Bytes are read exactly if they are what writes a text, and that text is read. -/
theorem decode?_eq_some_iff {bytes : List UInt8} {text : List Char} :
    decode? bytes = some text ↔ bytes = encode text := by
  constructor
  · intro h
    exact eq_encode_of_readAll (eq_map_some_of_mapM h)
  · rintro rfl
    exact decode?_encode text

end ProjectOrder.Text.Utf8
