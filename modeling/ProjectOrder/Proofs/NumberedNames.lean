import Mathlib.Data.Nat.Digits.Defs
import ProjectOrder.Proofs.NameExtensions

/-! Numbers in names: names that agree up to a number are compared by it, and past the same number by
what follows. -/
namespace ProjectOrder.Name

section Numbers
variable {start m n s t : List Char}

/-- The integer that digits write in base ten. -/
def integerOfDigits (digits : List Char) : Nat :=
  Nat.ofDigits 10 (digits.reverse.map fun d => d.toNat - '0'.toNat)

theorem valueOfDigits_eq (digits : List Char) : valueOfDigits digits = integerOfDigits digits := by
  induction digits using List.reverseRecOn with
  | nil => rfl
  | append_singleton digits d ih =>
    rw [valueOfDigits_append_singleton, ih, integerOfDigits, integerOfDigits, List.reverse_append,
      List.reverse_singleton, List.singleton_append, List.map_cons, Nat.ofDigits_cons]
    omega

/-- Digits are known by the integer that they write and how many they are. -/
theorem eq_of_integerOfDigits_eq (hm : IsRun true m) (hn : IsRun true n)
    (hvalue : integerOfDigits m = integerOfDigits n) (hlength : m.length = n.length) : m = n := by
  rw [← valueOfDigits_eq, ← valueOfDigits_eq] at hvalue
  rw [← lastDigits_valueOfDigits hm.isDigit_eq, ← lastDigits_valueOfDigits hn.isDigit_eq, hvalue,
    hlength]

theorem tokens_append_number (ignoreCase : Bool) (hstart : ∀ c ∈ start.getLast?, c.isDigit = false)
    (hm : IsRun true m) (hs : EndsRun true s) :
    tokens ignoreCase (start ++ m ++ s) =
      tokens ignoreCase start ++
        .number (integerOfDigits m) m.length :: tokens ignoreCase s := by
  have hnumber : EndsRun false (m ++ s) := hm.endsRun s
  rw [List.append_assoc, tokens_append_of_endsRun ignoreCase hstart hnumber,
    tokens_append ignoreCase hm hs, ofRun_digits ignoreCase hm, valueOfDigits_eq]

theorem compareNames_append_number (ignoreCase : Bool)
    (hstart : ∀ c ∈ start.getLast?, c.isDigit = false) (hm : IsRun true m) (hn : IsRun true n)
    (hs : EndsRun true s) (ht : EndsRun true t) :
    compareNames ignoreCase (start ++ m ++ s) (start ++ n ++ t) =
      ((compare (integerOfDigits m) (integerOfDigits n)).then (compare m.length n.length)).then
        (compareNames ignoreCase s t) := by
  rw [compareNames, tokens_append_number ignoreCase hstart hm hs,
    tokens_append_number ignoreCase hstart hn ht]
  exact (compareLex_append_left _ _ _).trans List.compareLex_cons_cons

/-- Names with numbers at the same place, after the same beginning and in front of anything but
digits, are in the order of the values of the numbers, and where these are equal in that of their
lengths. Only past the same digits it matters what follows. -/
theorem numbers_decide_before_rest (ignoreCase : Bool)
    (hstart : ∀ c ∈ start.getLast?, c.isDigit = false) (hm : IsRun true m) (hn : IsRun true n)
    (hs : EndsRun true s) (ht : EndsRun true t) :
    (m ≠ n → (compareNames ignoreCase (start ++ m ++ s) (start ++ n ++ t) = .lt ↔
      integerOfDigits m < integerOfDigits n ∨
        integerOfDigits m = integerOfDigits n ∧ m.length < n.length)) ∧
    (m = n → compareNames ignoreCase (start ++ m ++ s) (start ++ n ++ t) =
      compareNames ignoreCase s t) := by
  rw [compareNames_append_number ignoreCase hstart hm hn hs ht]
  constructor
  · intro hne
    have hdiffer : ¬ (integerOfDigits m = integerOfDigits n ∧ m.length = n.length) :=
      fun h => hne (eq_of_integerOfDigits_eq hm hn h.1 h.2)
    simp only [Ordering.then_eq_lt, Ordering.then_eq_eq, Nat.compare_eq_lt, Nat.compare_eq_eq,
      hdiffer, false_and, or_false]
  · rintro rfl
    simp

/-- The same number with a zero in front of it comes later, whatever follows; past the same digits
the rest decides. -/
theorem numbers_decide_before_rest_of_leading_zero :
    compareNames true (['v', '.'] ++ ['1', '0'] ++ ['z']) (['v', '.'] ++ ['0', '1', '0'] ++ ['a']) =
        .lt ∧
      compareNames true (['v', '.'] ++ ['1', '0'] ++ ['z']) (['v', '.'] ++ ['1', '0'] ++ ['a']) =
        compareNames true ['z'] ['a'] := by
  have hstart : ∀ c ∈ ['v', '.'].getLast?, c.isDigit = false := by
    rintro c ⟨rfl⟩
    rfl
  have hten : IsRun true ['1', '0'] := ⟨by simp, by simp⟩
  have hpadded : IsRun true ['0', '1', '0'] := ⟨by simp, by simp⟩
  have hletter : ∀ c : Char, c.isDigit = false → EndsRun true [c] := by
    rintro c hc d ⟨rfl⟩
    exact hc
  obtain ⟨hother, -⟩ :=
    numbers_decide_before_rest true hstart hten hpadded (hletter 'z' rfl) (hletter 'a' rfl)
  obtain ⟨-, hsame⟩ :=
    numbers_decide_before_rest true hstart hten hten (hletter 'z' rfl) (hletter 'a' rfl)
  exact ⟨(hother (by decide)).mpr (.inr (by decide)), hsame rfl⟩

end Numbers

end ProjectOrder.Name
