import ProjectOrder.Name.Token
import ProjectOrder.Proofs.UnitOrder

/-! Texts in the order of their characters, although they are compared unit by unit. -/
namespace ProjectOrder.Text.Utf16

/-- The units that write a code point. -/
def unitsOf (n : Nat) : List UInt16 :=
  if n < 0x10000 then [UInt16.ofNat n]
  else [UInt16.ofNat (0xD800 + (n - 0x10000) / 0x400), UInt16.ofNat (0xDC00 + (n - 0x10000) % 0x400)]

section CodePoints
variable {n : Nat} {units rest : List UInt16}

theorem length_unitsOf (n : Nat) : (unitsOf n).length = width n := by
  unfold unitsOf width
  split <;> simp <;> omega

theorem next?_eq_none_iff : next? units = none ↔ units = [] := by
  unfold next?
  grind

theorem unitsOf_toNat (unit : UInt16) : unitsOf unit.toNat = [unit] := by
  have hlt : unit.toNat < 0x10000 := unit.toNat_lt
  rw [unitsOf, if_pos hlt, UInt16.ofNat_toNat]

theorem unitsOf_pair {first second : UInt16} (hf : 0xD800 ≤ first) (hf' : first ≤ 0xDBFF)
    (hs : 0xDC00 ≤ second) (hs' : second ≤ 0xDFFF) :
    unitsOf (0x10000 + (first.toNat - 0xD800) * 0x400 + (second.toNat - 0xDC00)) =
      [first, second] := by
  rw [UInt16.le_iff_toNat_le] at hf hf' hs hs'
  simp only [UInt16.reduceToNat] at hf hf' hs hs'
  have hlead : 0xD800 + (0x10000 + (first.toNat - 0xD800) * 0x400 + (second.toNat - 0xDC00) -
      0x10000) / 0x400 = first.toNat := by omega
  have htrail : 0xDC00 + (0x10000 + (first.toNat - 0xD800) * 0x400 + (second.toNat - 0xDC00) -
      0x10000) % 0x400 = second.toNat := by omega
  rw [unitsOf, if_neg (by omega), hlead, htrail, UInt16.ofNat_toNat, UInt16.ofNat_toNat]

/-- What is read first is written by the units that are read. -/
theorem append_of_next? (h : next? units = some (n, rest)) : unitsOf n ++ rest = units := by
  unfold next? at h
  split at h
  · cases h
  · next unit after =>
    split at h
    · cases h
      rw [unitsOf_toNat]
      rfl
    · next second after =>
      split at h
      · next hpair =>
        obtain ⟨rfl, rfl⟩ := Prod.mk.inj (Option.some.inj h)
        simp only [Bool.and_eq_true, decide_eq_true_eq] at hpair
        obtain ⟨⟨⟨hf, hf'⟩, hs⟩, hs'⟩ := hpair
        rw [unitsOf_pair hf hf' hs hs']
        rfl
      · cases h
        rw [unitsOf_toNat]
        rfl

/-- Units are known by their code points, also where surrogates have no partner. -/
theorem flatMap_unitsOf_codePoints (units : List UInt16) :
    (codePoints units).flatMap unitsOf = units := by
  fun_induction codePoints units with
  | case1 units h => exact (next?_eq_none_iff.mp h).symm
  | case2 units n rest h ih => rw [List.flatMap_cons, ih, append_of_next? h]

theorem codePoints_injective : Function.Injective codePoints :=
  Function.LeftInverse.injective flatMap_unitsOf_codePoints

theorem codePoints_eq_nil_iff : codePoints units = [] ↔ units = [] := by
  have h : codePoints units = codePoints [] ↔ units = [] := codePoints_injective.eq_iff
  rwa [codePoints_nil] at h

end CodePoints

section Comparison
variable {start s t : List UInt16}

/-- Of two texts of which one is empty, the other one has more units and more code points. -/
theorem compare_length_of_eq_nil (h : s = [] ∨ t = []) :
    compare s.length t.length = List.compareLex compare (codePoints s) (codePoints t) := by
  rcases h with rfl | rfl
  · cases t with
    | nil =>
      rw [codePoints_nil]
      rfl
    | cons unit t =>
      have hne : codePoints (unit :: t) ≠ [] := mt codePoints_eq_nil_iff.mp (List.cons_ne_nil unit t)
      obtain ⟨n, rest, hpoints⟩ := List.exists_cons_of_ne_nil hne
      rw [codePoints_nil, hpoints, List.compareLex_nil_cons, Nat.compare_eq_lt]
      exact Nat.zero_lt_succ t.length
  · cases s with
    | nil =>
      rw [codePoints_nil]
      rfl
    | cons unit s =>
      have hne : codePoints (unit :: s) ≠ [] := mt codePoints_eq_nil_iff.mp (List.cons_ne_nil unit s)
      obtain ⟨n, rest, hpoints⟩ := List.exists_cons_of_ne_nil hne
      rw [codePoints_nil, hpoints, List.compareLex_cons_nil, Nat.compare_eq_gt]
      exact Nat.zero_lt_succ s.length

theorem codePointAt?_append (start s : List UInt16) :
    codePointAt? (start ++ s) start.length = (next? s).map (·.1) := by
  rw [codePointAt?, List.drop_left]

/-- Where one of the texts ends, the lengths decide. -/
theorem compareScalarsFrom_of_eq_nil (h : s = [] ∨ t = []) :
    compareScalarsFrom start.length (start ++ s) (start ++ t) = compare s.length t.length := by
  have hlengths : compare (start ++ s).length (start ++ t).length = compare s.length t.length := by
    rw [List.length_append, List.length_append, Nat.compare_eq_ite_lt, Nat.compare_eq_ite_lt]
    simp only [Nat.add_lt_add_iff_left]
  rw [compareScalarsFrom]
  split
  · next hs ht =>
    rw [codePointAt?_append] at hs ht
    rcases h with rfl | rfl
    · cases hs
    · cases ht
  · exact hlengths

/-- Where both texts go on, the next code points decide, and past the same one what follows. -/
theorem compareScalarsFrom_of_next? {m n : Nat} {s' t' : List UInt16}
    (hs : next? s = some (m, s')) (ht : next? t = some (n, t')) :
    compareScalarsFrom start.length (start ++ s) (start ++ t) =
      (compare m n).then
        (compareScalarsFrom (start.length + width m) (start ++ s) (start ++ t)) := by
  have hfirst : codePointAt? (start ++ s) start.length = some m := by
    rw [codePointAt?_append, hs]
    rfl
  have hsecond : codePointAt? (start ++ t) start.length = some n := by
    rw [codePointAt?_append, ht]
    rfl
  have hstep : compareScalarsFrom start.length (start ++ s) (start ++ t) =
      if m = n then compareScalarsFrom (start.length + width m) (start ++ s) (start ++ t)
      else compare m n := by
    rw [compareScalarsFrom, hfirst, hsecond]
  rw [hstep]
  cases hmn : compare m n with
  | lt => exact if_neg (Nat.ne_of_lt (Nat.compare_eq_lt.mp hmn))
  | eq => exact if_pos (Nat.compare_eq_eq.mp hmn)
  | gt => exact if_neg (Nat.ne_of_gt (Nat.compare_eq_gt.mp hmn))

/-- From a place up to which the texts are the same, they are compared by the code points that follow.
The same code points take as many units on both sides, so that both go on at the same place. -/
theorem compareScalarsFrom_append (start s t : List UInt16) :
    compareScalarsFrom start.length (start ++ s) (start ++ t) =
      List.compareLex compare (codePoints s) (codePoints t) := by
  fun_induction codePoints s generalizing start t with
  | case1 s hs =>
    have hnil : s = [] := next?_eq_none_iff.mp hs
    rw [compareScalarsFrom_of_eq_nil (.inl hnil), compare_length_of_eq_nil (.inl hnil), hnil,
      codePoints_nil]
  | case2 s m s' hs ih =>
    rw [← codePoints_of_next? hs]
    cases ht : next? t with
    | none =>
      have hnil : t = [] := next?_eq_none_iff.mp ht
      rw [compareScalarsFrom_of_eq_nil (.inr hnil), compare_length_of_eq_nil (.inr hnil)]
    | some p =>
      obtain ⟨n, t'⟩ := p
      rw [compareScalarsFrom_of_next? hs ht, codePoints_of_next? hs, codePoints_of_next? ht,
        List.compareLex_cons_cons]
      cases hmn : compare m n with
      | lt => rfl
      | gt => rfl
      | eq =>
        obtain rfl := Nat.compare_eq_eq.mp hmn
        have hrest := ih (start ++ unitsOf m) t'
        rwa [List.append_assoc, List.append_assoc, append_of_next? hs, append_of_next? ht,
          List.length_append, length_unitsOf] at hrest

theorem compareScalars_eq (s t : List UInt16) :
    compareScalars s t = List.compareLex compare (codePoints s) (codePoints t) :=
  compareScalarsFrom_append [] s t

end Comparison

theorem compare_toNat (c d : Char) : compare c.toNat d.toNat = compare c d := by
  have hlt : c.toNat < d.toNat ↔ c < d := Iff.rfl
  simp only [compare, compareOfLessAndEq, Char.toNat_inj, hlt]

theorem compareLex_map_toNat (s t : List Char) :
    List.compareLex compare (s.map Char.toNat) (t.map Char.toNat) = compare s t := by
  rw [List.compare_eq_compareLex]
  induction s generalizing t with
  | nil => cases t <;> rfl
  | cons c s ih =>
    cases t with
    | nil => rfl
    | cons d t =>
      simp only [List.map_cons, List.compareLex_cons_cons, compare_toNat, ih]

/-- Units are in the order of the code points that they write, from the first to the last, and only the
same units are at one place. Of texts these are the characters, so that texts in names are in the same
order. -/
theorem scalar_order_is_lexicographic :
    (∀ a b : List UInt16,
      compareScalars a b = List.compareLex compare (codePoints a) (codePoints b) ∧
        (compareScalars a b = .eq ↔ a = b)) ∧
    ∀ s t : List Char,
      compareScalars (encode s) (encode t) =
          List.compareLex compare (s.map Char.toNat) (t.map Char.toNat) ∧
        compareScalars (encode s) (encode t) = Name.Token.compare (.text s) (.text t) := by
  constructor
  · intro a b
    rw [compareScalars_eq]
    refine ⟨rfl, ?_⟩
    rw [← codePoints_injective.eq_iff]
    exact Std.LawfulEqCmp.compare_eq_iff_eq
  · intro s t
    rw [compareScalars_eq, codePoints_encode, codePoints_encode]
    exact ⟨rfl, compareLex_map_toNat s t⟩

/-- A smiling face, in two units, comes after a full-width mark in one, whose unit is greater. -/
example : compareScalars (encode ['！']) (encode ['😀']) = .lt ∧
    compareUnits (encode ['！']) (encode ['😀']) = .gt := by
  cbv

end ProjectOrder.Text.Utf16
