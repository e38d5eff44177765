import ProjectOrder.Proofs.FoldedNames

/-! A name comes before all that extend it, also where more letters change how the last of its own is
written in lower case. -/
namespace ProjectOrder

theorem compareLex_append_left {cmp : α → α → Ordering} [Std.ReflCmp cmp] (start s t : List α) :
    List.compareLex cmp (start ++ s) (start ++ t) = List.compareLex cmp s t := by
  induction start with
  | nil => rfl
  | cons a start ih =>
    have hself : cmp a a = .eq := Std.ReflCmp.compare_self
    rw [List.cons_append, List.cons_append, List.compareLex_cons_cons, hself, ih, Ordering.eq_then]

theorem compareLex_nil_of_ne_nil {cmp : α → α → Ordering} {s : List α} (h : s ≠ []) :
    List.compareLex cmp [] s = .lt := by
  obtain ⟨a, r, rfl⟩ := List.exists_cons_of_ne_nil h
  exact List.compareLex_nil_cons

end ProjectOrder

namespace ProjectOrder.Text

theorem compare_append_lt (s : List Char) {t : List Char} (h : t ≠ []) : compare s (s ++ t) = .lt := by
  have happend : compare (s ++ []) (s ++ t) = compare [] t := compareLex_append_left s [] t
  rw [List.append_nil] at happend
  exact happend.trans (compareLex_nil_of_ne_nil h)

section Lowercase
variable {s t : List Char}

theorem leadsToCased_append (h : leadsToCased s) (t : List Char) : leadsToCased (s ++ t) := by
  induction s with
  | nil => simp [leadsToCased] at h
  | cons c s ih =>
    by_cases hc : isCaseIgnorable c
    · have hs : leadsToCased s := by simpa [leadsToCased, hc] using h
      simpa [leadsToCased, hc] using ih hs
    · simpa [leadsToCased, hc] using h

/-- What follows can only make a final sigma one that is not final. -/
theorem lowerIn_append (afterCased : Bool) (c : Char) (s t : List Char) :
    lowerIn afterCased c (s ++ t) = lowerIn afterCased c s ∨
      lowerIn afterCased c s = ['ς'] ∧ lowerIn afterCased c (s ++ t) = ['σ'] := by
  by_cases hc : c = 'Σ'
  · cases hs : leadsToCased s with
    | true =>
      left
      simp only [lowerIn, hs, leadsToCased_append hs t]
    | false =>
      cases ht : leadsToCased (s ++ t) with
      | true => cases afterCased <;> simp [lowerIn, hc, hs, ht]
      | false => simp [lowerIn, hs, ht]
  · left
    simp [lowerIn, hc]

theorem compare_lowerAfter_append_lt (afterCased : Bool) (s : List Char) (h : t ≠ []) :
    compare (lowerAfter afterCased s) (lowerAfter afterCased (s ++ t)) = .lt := by
  induction s generalizing afterCased with
  | nil => exact compareLex_nil_of_ne_nil (lowerAfter_ne_nil afterCased h)
  | cons c s ih =>
    rw [List.cons_append, lowerAfter, lowerAfter]
    rcases lowerIn_append afterCased c s t with hsame | ⟨hfinal, hmedial⟩
    · rw [hsame]
      exact (compareLex_append_left _ _ _).trans (ih _)
    · rw [hfinal, hmedial]
      rfl

end Lowercase

end ProjectOrder.Text

namespace ProjectOrder.Name
open ProjectOrder.Text

section Runs
variable {digits : Bool} {run rest more : List Char}

/-- A number that goes on is no smaller and has more digits, and a text that goes on is greater. -/
theorem compare_ofRun_append_lt (ignoreCase : Bool) (h : IsRun digits run) (hm : IsRun digits more) :
    (Token.ofRun ignoreCase run).compare (Token.ofRun ignoreCase (run ++ more)) = .lt := by
  cases digits with
  | true =>
    have hvalue := valueOfDigits_le_append run more
    have hlength := List.length_pos_iff.mpr hm.ne_nil
    rw [ofRun_digits ignoreCase h, ofRun_digits ignoreCase (h.append hm), Token.compare,
      Ordering.then_eq_lt, Nat.compare_eq_lt, Nat.compare_eq_eq, Nat.compare_eq_lt, List.length_append]
    omega
  | false =>
    rw [ofRun_text ignoreCase h, ofRun_text ignoreCase (h.append hm), Token.compare]
    cases ignoreCase with
    | true => exact compare_lowerAfter_append_lt false run hm.ne_nil
    | false => exact compare_append_lt run hm.ne_nil

theorem compareNames_run_append_lt (ignoreCase : Bool) (h : IsRun digits run) (hne : more ≠ []) :
    compareNames ignoreCase run (run ++ more) = .lt := by
  induction more using runs_induction with
  | nil => exact absurd rfl hne
  | run digits' next rest hnext hends _ =>
    by_cases hsame : digits' = digits
    · subst hsame
      rw [compareNames, tokens_run ignoreCase h, ← List.append_assoc,
        tokens_append ignoreCase (h.append hnext) hends, compareTokens, List.compareLex_cons_cons,
        compare_ofRun_append_lt ignoreCase h hnext, Ordering.lt_then]
    · have hother : digits = !digits' := Bool.eq_not.mpr (Ne.symm hsame)
      subst hother
      rw [compareNames, tokens_run ignoreCase h, tokens_append ignoreCase h (hnext.endsRun rest)]
      exact (compareLex_append_left [_] [] _).trans
        (compareLex_nil_of_ne_nil (tokens_ne_nil ignoreCase hne))

end Runs

/-- A name comes before all names that extend it, in both ways to read case. -/
theorem compareNames_append_lt (ignoreCase : Bool) (name : List Char) {more : List Char}
    (h : more ≠ []) : compareNames ignoreCase name (name ++ more) = .lt := by
  induction name using runs_induction with
  | nil => exact compareLex_nil_of_ne_nil (tokens_ne_nil ignoreCase h)
  | run digits run rest hrun hends ih =>
    rcases eq_or_ne rest [] with rfl | hne
    · rw [List.append_nil]
      exact compareNames_run_append_lt ignoreCase hrun h
    · rw [List.append_assoc, compareNames, tokens_append ignoreCase hrun hends,
        tokens_append ignoreCase hrun (hends.append hne more)]
      exact (compareLex_append_left [_] _ _).trans ih

/-- The sigma that ends the shorter name is another letter in the longer one, where it ends no word. -/
theorem compareNames_append_lt_after_final_sigma :
    compareNames true "ΟΔΟΣ".toList ("ΟΔΟΣ".toList ++ "Α1".toList) = .lt ∧
      lowercase "ΟΔΟΣ".toList = "οδος".toList ∧ lowercase "ΟΔΟΣΑ1".toList = "οδοσα1".toList :=
  ⟨compareNames_append_lt true _ (by decide), by decide +kernel, by decide +kernel⟩

end ProjectOrder.Name
