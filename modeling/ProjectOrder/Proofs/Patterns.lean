import Mathlib.Data.List.TakeDrop
import ProjectOrder.Proofs.NameSearches

/-! Words, and patterns of words and blanks: how their text is read and where they are found. -/
namespace ProjectOrder.Text

section Words
variable {word other s t : List Char}

theorem span_word_append (hw : word.all (!isBlank ·)) (hs : ∀ c ∈ s.head?, isBlank c = true) :
    (word ++ s).span (!isBlank ·) = (word, s) := by
  have hword := List.all_eq_true.mp hw
  rw [List.span_eq_takeWhile_dropWhile, List.takeWhile_append_of_pos hword,
    List.dropWhile_append_of_pos hword]
  cases s with
  | nil => simp
  | cons c s =>
    have hc : isBlank c = true := hs c rfl
    simp [hc]

/-- Every text is cut in one way into a first word and the blank that follows it. -/
theorem word_append_inj (hw : word.all (!isBlank ·)) (ho : other.all (!isBlank ·))
    (hs : ∀ c ∈ s.head?, isBlank c = true) (ht : ∀ c ∈ t.head?, isBlank c = true)
    (h : word ++ s = other ++ t) : word = other ∧ s = t := by
  have hspan := congrArg (List.span (!isBlank ·)) h
  rw [span_word_append hw hs, span_word_append ho ht] at hspan
  exact Prod.mk.inj hspan

end Words

namespace Pattern

/-- What a pattern asks for at one place. -/
inductive Item where
  | character (c : Char)
  /-- One blank or more. -/
  | blanks
  deriving DecidableEq, Repr

/-- A text that is asked for as it is. -/
def literal (s : List Char) : List Item :=
  s.map .character

/-- The text starts with what the pattern asks for. -/
def Starts : List Item → List Char → Prop
  | [], _ => True
  | .character c :: items, s => ∃ rest, s = c :: rest ∧ Starts items rest
  | .blanks :: items, s =>
    ∃ gap rest, gap ≠ [] ∧ AllBlank gap ∧ s = gap ++ rest ∧ Starts items rest

/-- The text holds what the pattern asks for, wherever it starts. -/
def Holds (items : List Item) (s : List Char) : Prop :=
  ∃ rest, rest <:+ s ∧ Starts items rest

/-- Characters that do not stand for themselves in a pattern, unless a backslash is before them. -/
def specialChars : List Char :=
  ['^', '$', '\\', '.', '*', '+', '?', '(', ')', '[', ']', '\x7b', '\x7d', '|']

def isSpecial (c : Char) : Bool :=
  specialChars.contains c

/-- The pattern that a text writes, if it asks for characters and blanks alone. -/
def readPattern? : List Char → Option (List Item)
  | [] => some []
  | '\\' :: 's' :: '+' :: rest => (readPattern? rest).map (.blanks :: ·)
  | '\\' :: c :: rest => if isSpecial c then (readPattern? rest).map (.character c :: ·) else none
  | c :: rest => if isSpecial c then none else (readPattern? rest).map (.character c :: ·)

/-- Characters that are written with a backslash before them. -/
def escapedChars : List Char :=
  ['.', '*', '+', '?', '^', '$', '\x7b', '\x7d', '(', ')', '|', '[', ']', '\\']

/-- A character as it is written in a pattern. -/
def escapedChar (c : Char) : List Char :=
  if escapedChars.contains c then ['\\', c] else [c]

/-- A text as it is written in a pattern. -/
def escaped (s : List Char) : List Char :=
  s.flatMap escapedChar

section Reading
variable {c : Char} {rest : List Char}

/-- A backslash is written before the special characters, and before no others. -/
theorem escapedChar_eq (c : Char) : escapedChar c = if isSpecial c then ['\\', c] else [c] := by
  have hsame : escapedChars.Perm specialChars := by decide
  simp only [escapedChar, isSpecial, List.contains_eq_mem, hsame.mem_iff]

theorem readPattern?_special (h : isSpecial c = true) (rest : List Char) :
    readPattern? ('\\' :: c :: rest) = (readPattern? rest).map (.character c :: ·) := by
  have hne : c ≠ 's' := by
    rintro rfl
    exact absurd h (by decide)
  rw [readPattern?.eq_def]
  grind

theorem readPattern?_plain (h : isSpecial c = false) (rest : List Char) :
    readPattern? (c :: rest) = (readPattern? rest).map (.character c :: ·) := by
  have hne : c ≠ '\\' := by
    rintro rfl
    exact absurd h (by decide)
  rw [readPattern?.eq_def]
  grind

theorem readPattern?_escapedChar_append (c : Char) (rest : List Char) :
    readPattern? (escapedChar c ++ rest) = (readPattern? rest).map (.character c :: ·) := by
  rw [escapedChar_eq]
  cases hc : isSpecial c with
  | true => exact readPattern?_special hc rest
  | false => exact readPattern?_plain hc rest

/-- An escaped text asks for itself, whatever characters it is made of. -/
theorem readPattern?_escaped_append (s rest : List Char) :
    readPattern? (escaped s ++ rest) = (readPattern? rest).map (literal s ++ ·) := by
  induction s with
  | nil => simp [escaped, literal]
  | cons c s ih =>
    rw [escaped, List.flatMap_cons, ← escaped, List.append_assoc, readPattern?_escapedChar_append,
      ih, Option.map_map]
    rfl

end Reading

section Searches
variable {c : Char} {word other s : List Char} {items : List Item}

theorem starts_literal_append_iff :
    Starts (literal word ++ items) s ↔ ∃ rest, s = word ++ rest ∧ Starts items rest := by
  induction word generalizing s with
  | nil => simp [literal]
  | cons c word ih =>
    constructor
    · rintro ⟨r, rfl, h⟩
      obtain ⟨rest, rfl, hrest⟩ := ih.mp h
      exact ⟨rest, rfl, hrest⟩
    · rintro ⟨rest, rfl, h⟩
      exact ⟨word ++ rest, rfl, ih.mpr ⟨rest, rfl, h⟩⟩

theorem starts_literal_iff : Starts (literal word) s ↔ word <+: s := by
  have h : Starts (literal word ++ []) s ↔ ∃ rest, s = word ++ rest ∧ Starts [] rest :=
    starts_literal_append_iff
  rw [List.append_nil] at h
  rw [h]
  constructor
  · rintro ⟨rest, rfl, -⟩
    exact List.prefix_append word rest
  · rintro ⟨rest, rfl⟩
    exact ⟨rest, rfl, trivial⟩

/-- What blanks follow is found as a whole word or not at all. -/
theorem starts_word_iff (hw : word.all (!isBlank ·)) (ho : other.all (!isBlank ·))
    (hc : isBlank c = true) (rest : List Char) :
    Starts (literal word ++ .blanks :: items) (other ++ c :: rest) ↔
      word = other ∧ Starts (.blanks :: items) (c :: rest) := by
  rw [starts_literal_append_iff]
  constructor
  · rintro ⟨s, heq, hs⟩
    have hblank : ∀ d ∈ s.head?, isBlank d = true := by
      obtain ⟨gap, r, hne, hgap, rfl, -⟩ := hs
      obtain ⟨b, gap, rfl⟩ := List.exists_cons_of_ne_nil hne
      rintro d ⟨rfl⟩
      exact (Bool.and_eq_true_iff.mp hgap).1
    have hhead : ∀ d ∈ (c :: rest).head?, isBlank d = true := by
      rintro d ⟨rfl⟩
      exact hc
    obtain ⟨rfl, rfl⟩ := word_append_inj ho hw hhead hblank heq
    exact ⟨rfl, hs⟩
  · rintro ⟨rfl, hs⟩
    exact ⟨c :: rest, rfl, hs⟩

/-- In front of a word there are no more blanks to be found than there are. -/
theorem starts_blanks_iff (hw : IsWord word) (ho : IsWord other) (hc : isBlank c = true)
    (rest : List Char) :
    Starts (.blanks :: (literal word ++ items)) (c :: (other ++ rest)) ↔
      Starts (literal word ++ items) (other ++ rest) := by
  have hblank : AllBlank [c] := by simpa [AllBlank] using hc
  constructor
  · rintro ⟨gap, s, -, hgap, heq, hs⟩
    obtain ⟨after, rfl, -⟩ := starts_literal_append_iff.mp hs
    obtain ⟨-, hrest⟩ := blanks_append_inj hblank hgap (isBlank_head?_of_isWord ho rest)
      (isBlank_head?_of_isWord hw after) heq
    rwa [hrest]
  · intro hs
    exact ⟨[c], other ++ rest, List.cons_ne_nil c [], hblank, rfl, hs⟩

theorem holds_cons_iff : Holds items (c :: s) ↔ Starts items (c :: s) ∨ Holds items s := by
  constructor
  · rintro ⟨rest, hrest, hs⟩
    rcases List.suffix_cons_iff.mp hrest with rfl | hrest
    · exact .inl hs
    · exact .inr ⟨rest, hrest, hs⟩
  · rintro (hs | ⟨rest, hrest, hs⟩)
    · exact ⟨c :: s, List.suffix_refl _, hs⟩
    · exact ⟨rest, hrest.trans (List.suffix_cons c s), hs⟩

/-- A pattern that starts with a word and blanks is found at the end of the first word of a text, or
after it. -/
theorem holds_word_iff (hw : word.all (!isBlank ·)) (ho : other.all (!isBlank ·)) (hc : isBlank c = true)
    (rest : List Char) :
    Holds (literal word ++ .blanks :: items) (other ++ c :: rest) ↔
      word <:+ other ∧ Starts (.blanks :: items) (c :: rest) ∨
        Holds (literal word ++ .blanks :: items) rest := by
  induction other with
  | nil =>
    have hstart : Starts (literal word ++ .blanks :: items) ([] ++ c :: rest) ↔
        word = [] ∧ Starts (.blanks :: items) (c :: rest) := starts_word_iff hw ho hc rest
    rw [List.nil_append] at hstart ⊢
    rw [holds_cons_iff, hstart, List.suffix_nil]
  | cons d other ih =>
    have hrest : other.all (!isBlank ·) = true := (Bool.and_eq_true_iff.mp ho).2
    have hstart : Starts (literal word ++ .blanks :: items) (d :: other ++ c :: rest) ↔
        word = d :: other ∧ Starts (.blanks :: items) (c :: rest) := starts_word_iff hw ho hc rest
    rw [List.cons_append] at hstart ⊢
    rw [holds_cons_iff, hstart, ih hrest, List.suffix_cons_iff, or_and_right, or_assoc]

/-- What a pattern starts with stands in the text in which it is found. -/
theorem isInfix_of_holds (h : Holds (literal word ++ items) s) : word <:+: s := by
  obtain ⟨rest, hrest, hs⟩ := h
  obtain ⟨after, rfl, -⟩ := starts_literal_append_iff.mp hs
  exact (List.prefix_append word after).isInfix.trans hrest.isInfix

end Searches

end Pattern
end ProjectOrder.Text
