import ProjectOrder.Name.Rank
import ProjectOrder.Proofs.NameOrder

/-! Names read without regard to case are names in lower case, whether that is made of all of a name
or of one run after the other. -/
namespace ProjectOrder.Text

section Digits
variable {c d : Char}

theorem inRanges_digit {ranges : List (Nat × Nat)}
    (h : ∀ range ∈ ranges, range.2 < '0'.toNat ∨ '9'.toNat < range.1) (hc : c.isDigit) :
    inRanges ranges c = false := by
  obtain ⟨hlow, hhigh⟩ := Char.isDigit_iff_toNat.mp hc
  rw [inRanges, List.any_eq_false]
  intro range hr
  have := h range hr
  simp only [Bool.and_eq_true, decide_eq_true_eq, not_and]
  omega

theorem isCaseIgnorable_digit (hc : c.isDigit) : isCaseIgnorable c = false :=
  inRanges_digit (by decide +kernel) hc

theorem isCased_digit (hc : c.isDigit) : isCased c = false :=
  inRanges_digit (by decide +kernel) hc

/-- Rows map letters past the digits to letters past the digits. -/
theorem digits_lt_caseRows : ∀ row ∈ caseRows,
    '9'.toNat < row.first ∧ ('9'.toNat : Int) < row.first + row.offset := by
  decide +kernel

theorem covers_of_find? {n : Nat} {row : CaseRow} (h : caseRows.find? (·.covers n) = some row) :
    row ∈ caseRows ∧ row.first ≤ n := by
  refine ⟨List.mem_of_find?_eq_some h, ?_⟩
  have hcovers := List.find?_some h
  simp only [CaseRow.covers, Bool.and_eq_true, decide_eq_true_eq] at hcovers
  exact hcovers.1.1

theorem toNat_ofNat_eq (n : Nat) : (Char.ofNat n).toNat = n ∨ (Char.ofNat n).toNat = 0 := by
  by_cases hn : n.isValidChar
  · exact .inl (congrArg Char.toNat (dif_pos hn))
  · exact .inr (congrArg Char.toNat (dif_neg hn))

theorem isDigit_ofNat_of_lt {n : Nat} (h : '9'.toNat < n) : (Char.ofNat n).isDigit = false := by
  have hzero : '0'.toNat = 48 := rfl
  rw [Bool.eq_false_iff, ne_eq, Char.isDigit_iff_toNat]
  rcases toNat_ofNat_eq n with hn | hn <;> omega

theorem isDigit_lowerChar : (lowerChar c).isDigit = c.isDigit := by
  unfold lowerChar
  split
  · next row hrow =>
    obtain ⟨hmem, hfirst⟩ := covers_of_find? hrow
    obtain ⟨hrow, himage⟩ := digits_lt_caseRows row hmem
    have hc : c.isDigit = false := by
      rw [Bool.eq_false_iff, ne_eq, Char.isDigit_iff_toNat]
      omega
    rw [hc]
    exact isDigit_ofNat_of_lt (by omega)
  · rfl

theorem lowerChar_digit (hc : c.isDigit) : lowerChar c = c := by
  obtain ⟨-, hhigh⟩ := Char.isDigit_iff_toNat.mp hc
  unfold lowerChar
  split
  · next row hrow =>
    obtain ⟨hmem, hfirst⟩ := covers_of_find? hrow
    obtain ⟨hrow, -⟩ := digits_lt_caseRows row hmem
    omega
  · rfl

end Digits

section Lowercase
variable {c d : Char}

theorem isDigit_of_mem_lowerIn {afterCased : Bool} {rest : List Char}
    (hd : d ∈ lowerIn afterCased c rest) : d.isDigit = c.isDigit := by
  unfold lowerIn at hd
  split at hd
  · next hc =>
    subst hc
    split at hd <;> rw [List.mem_singleton.mp hd] <;> rfl
  · split at hd
    · next hc =>
      subst hc
      simp only [List.mem_cons, List.not_mem_nil, or_false] at hd
      rcases hd with rfl | rfl <;> rfl
    · rw [List.mem_singleton.mp hd]
      exact isDigit_lowerChar

theorem lowerIn_ne_nil (afterCased : Bool) (c : Char) (rest : List Char) :
    lowerIn afterCased c rest ≠ [] := by
  unfold lowerIn
  split
  · split <;> simp
  · split <;> simp

theorem lowerAfter_ne_nil (afterCased : Bool) {s : List Char} (h : s ≠ []) :
    lowerAfter afterCased s ≠ [] := by
  obtain ⟨c, r, rfl⟩ := List.exists_cons_of_ne_nil h
  simp [lowerAfter, lowerIn_ne_nil]

@[simp] theorem lowercase_nil : lowercase [] = [] := rfl

theorem lowercase_eq_nil_iff {s : List Char} : lowercase s = [] ↔ s = [] := by
  constructor
  · intro h
    by_contra hne
    exact lowerAfter_ne_nil false hne h
  · rintro rfl
    rfl

/-- A digit stays as it is, and ends the word before it. -/
theorem lowerAfter_digit (afterCased : Bool) (hc : c.isDigit) (r : List Char) :
    lowerAfter afterCased (c :: r) = c :: lowercase r := by
  have hsigma : c ≠ 'Σ' := fun h => absurd hc (h ▸ by decide)
  have hdotted : c ≠ 'İ' := fun h => absurd hc (h ▸ by decide)
  simp [lowerAfter, lowerIn, hsigma, hdotted, lowerChar_digit hc, isCaseIgnorable_digit hc,
    isCased_digit hc, lowercase]

theorem leadsToCased_append_digit (hc : c.isDigit) (s r : List Char) :
    leadsToCased (s ++ c :: r) = leadsToCased s := by
  induction s with
  | nil =>
    simp [leadsToCased, isCaseIgnorable_digit hc, isCased_digit hc]
  | cons d s ih =>
    by_cases hd : isCaseIgnorable d
    · simpa [leadsToCased, hd] using ih
    · simp [leadsToCased, hd]

/-- What stands before a digit does not look past it. -/
theorem lowerAfter_append_digit (afterCased : Bool) (hc : c.isDigit) (s r : List Char) :
    lowerAfter afterCased (s ++ c :: r) = lowerAfter afterCased s ++ lowercase (c :: r) := by
  induction s generalizing afterCased with
  | nil =>
    have hstart : lowercase (c :: r) = c :: lowercase r := lowerAfter_digit false hc r
    rw [List.nil_append, lowerAfter_digit afterCased hc, hstart]
    rfl
  | cons d s ih =>
    have hd : lowerIn afterCased d (s ++ c :: r) = lowerIn afterCased d s := by
      simp only [lowerIn, leadsToCased_append_digit hc]
    rw [List.cons_append, lowerAfter, lowerAfter, hd, ih, List.append_assoc]

theorem lowercase_digits_append {digits : List Char} (h : ∀ d ∈ digits, d.isDigit)
    (rest : List Char) : lowercase (digits ++ rest) = digits ++ lowercase rest := by
  induction digits with
  | nil => rfl
  | cons d digits ih =>
    have hd : d.isDigit := h d (by simp)
    have hdigits := ih fun x hx => h x (by simp [hx])
    rw [List.cons_append, lowercase, lowerAfter_digit false hd, hdigits, List.cons_append]

theorem lowercase_digits {digits : List Char} (h : ∀ d ∈ digits, d.isDigit) :
    lowercase digits = digits := by
  simpa using lowercase_digits_append h []

theorem isDigit_of_mem_lowerAfter {digits : Bool} {s : List Char}
    (h : ∀ c ∈ s, c.isDigit = digits) (afterCased : Bool) :
    ∀ d ∈ lowerAfter afterCased s, d.isDigit = digits := by
  induction s generalizing afterCased with
  | nil => simp [lowerAfter]
  | cons c s ih =>
    intro d hd
    rcases List.mem_append.mp hd with hd | hd
    · rw [isDigit_of_mem_lowerIn hd]
      exact h c (by simp)
    · exact ih (fun x hx => h x (by simp [hx])) _ d hd

end Lowercase

end ProjectOrder.Text

namespace ProjectOrder.Name
open ProjectOrder.Text

section Runs
variable {digits : Bool} {run rest : List Char}

/-- Lower case of a run and what ends it is that of each of the two. -/
theorem lowercase_append (h : IsRun digits run) (hr : EndsRun digits rest) :
    lowercase (run ++ rest) = lowercase run ++ lowercase rest := by
  cases digits with
  | true =>
    rw [lowercase_digits_append h.isDigit_eq, lowercase_digits h.isDigit_eq]
  | false =>
    cases rest with
    | nil => simp
    | cons c rest =>
      have hc : c.isDigit := hr c rfl
      exact lowerAfter_append_digit false hc run rest

theorem IsRun.lowercase (h : IsRun digits run) : IsRun digits (Text.lowercase run) :=
  ⟨lowercase_eq_nil_iff.not.mpr h.ne_nil, isDigit_of_mem_lowerAfter h.isDigit_eq false⟩

theorem EndsRun.lowercase (h : EndsRun digits rest) : EndsRun digits (Text.lowercase rest) := by
  cases rest with
  | nil => exact h
  | cons c rest =>
    intro d hd
    have hmem : d ∈ lowerIn false c rest := by
      obtain ⟨x, more, hx⟩ := List.exists_cons_of_ne_nil (lowerIn_ne_nil false c rest)
      rw [Text.lowercase, lowerAfter, hx] at hd
      simp only [List.cons_append, List.head?_cons, Option.mem_some_iff] at hd
      simp [hx, hd]
    rw [isDigit_of_mem_lowerIn hmem]
    exact h c rfl

theorem ofRun_ignoreCase (h : IsRun digits run) :
    Token.ofRun true run = Token.ofRun false (lowercase run) := by
  cases digits with
  | true =>
    rw [lowercase_digits h.isDigit_eq, ofRun_digits true h, ofRun_digits false h]
  | false =>
    rw [ofRun_text true h, ofRun_text false h.lowercase]
    rfl

end Runs

/-- Without regard to case a name has the tokens of its lower case. -/
theorem tokens_ignoreCase (name : List Char) : tokens true name = tokens false (lowercase name) := by
  induction name using runs_induction with
  | nil => rfl
  | run digits run rest h hr ih =>
    rw [tokens_append true h hr, lowercase_append h hr, tokens_append false h.lowercase hr.lowercase,
      ofRun_ignoreCase h, ih]

theorem compareNames_ignoreCase_eq_iff {a b : List Char} :
    compareNames true a b = .eq ↔ lowercase a = lowercase b := by
  have h : compareNames true a b = compareNames false (lowercase a) (lowercase b) := by
    rw [compareNames, tokens_ignoreCase, tokens_ignoreCase]
    rfl
  rw [h]
  exact Std.LawfulEqCmp.compare_eq_iff_eq

theorem isFolder_eq_of_lowercase_eq {a b : List Char} (h : lowercase a = lowercase b)
    (knownFiles : List String) :
    (Rules.of true knownFiles).isFolder a = (Rules.of true knownFiles).isFolder b := by
  have hempty : a.isEmpty = b.isEmpty := by
    rw [Bool.eq_iff_iff, List.isEmpty_iff, List.isEmpty_iff, ← lowercase_eq_nil_iff, h,
      lowercase_eq_nil_iff]
  have hfold : foldCase true a = foldCase true b := h
  simp only [Rules.isFolder, Rules.of, hempty, hfold]

/-- There is one way to ignore case. The tokens of a name, each in lower case, are those of the lower
case of the name; so names compare equal exactly if their lower case is the same, and then both are
folders or both are files, whatever files are known. -/
theorem ignoring_case_is_lowercase :
    (∀ name, tokens true name = tokens false (lowercase name)) ∧
    ∀ a b, (compareNames true a b = .eq ↔ lowercase a = lowercase b) ∧
      (compareNames true a b = .eq → ∀ knownFiles,
        (Rules.of true knownFiles).isFolder a = (Rules.of true knownFiles).isFolder b) := by
  refine ⟨tokens_ignoreCase, fun a b => ⟨compareNames_ignoreCase_eq_iff, fun h => ?_⟩⟩
  exact isFolder_eq_of_lowercase_eq (compareNames_ignoreCase_eq_iff.mp h)

/-- A capital sigma in front of a number ends a word, as it does where a name ends. -/
theorem ignoring_case_is_lowercase_of_final_sigma :
    compareNames true "ΟΔΟΣ2".toList "οδος2".toList = .eq ∧
      (Rules.of true ["Οδος2"]).isFolder "ΟΔΟΣ2".toList =
        (Rules.of true ["Οδος2"]).isFolder "οδος2".toList := by
  obtain ⟨hiff, hfolder⟩ := ignoring_case_is_lowercase.2 "ΟΔΟΣ2".toList "οδος2".toList
  have heq : compareNames true "ΟΔΟΣ2".toList "οδος2".toList = .eq := hiff.mpr (by decide +kernel)
  exact ⟨heq, hfolder heq _⟩

end ProjectOrder.Name
