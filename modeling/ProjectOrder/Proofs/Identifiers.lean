import ProjectOrder.Document.Opening
import ProjectOrder.Proofs.NameSearches

/-! Identifiers at the start of a line, and the comments after them. -/
namespace ProjectOrder.Document
open ProjectOrder.Text

section Identifiers
variable {c : Char} {indent identifier rest : List Char}

theorem isHexDigit_bounds (h : isHexDigit c) : 48 ≤ c.toNat ∧ c.toNat ≤ 102 := by
  simp only [isHexDigit, Bool.or_eq_true, Bool.and_eq_true, decide_eq_true_eq, Char.le_def,
    UInt32.le_iff_toNat_le, Char.isDigit_iff_toNat] at h
  rcases h with (⟨hlow, hhigh⟩ | ⟨hlow, hhigh⟩) | ⟨hlow, hhigh⟩
  · exact ⟨hlow, le_trans hhigh (by decide)⟩
  · exact ⟨le_trans (by decide) hlow, le_trans hhigh (by decide)⟩
  · exact ⟨le_trans (by decide) hlow, le_trans hhigh (by decide)⟩

theorem isBlank_hexDigit (h : isHexDigit c) : isBlank c = false := by
  obtain ⟨hlow, hhigh⟩ := isHexDigit_bounds h
  simp only [isBlank, Bool.or_eq_false_iff, Bool.and_eq_false_iff, decide_eq_false_iff_not,
    beq_eq_false_iff_ne]
  omega

theorem isHexDigit_of_mem_identifier (h : isIdentifier identifier) (hc : c ∈ identifier) :
    isHexDigit c := by
  obtain ⟨-, hhex⟩ := Bool.and_eq_true_iff.mp h
  exact List.all_eq_true.mp hhex c hc

theorem skipBlanks_identifier (h : isIdentifier identifier) (rest : List Char) :
    skipBlanks (identifier ++ rest) = identifier ++ rest := by
  cases identifier with
  | nil => cases h
  | cons c identifier =>
    have hc : isBlank c = false := isBlank_hexDigit (isHexDigit_of_mem_identifier h (by simp))
    exact skipBlanks_cons hc _

theorem afterIdentifier?_append (hindent : indent.all isBlank)
    (h : isIdentifier identifier) (rest : List Char) :
    afterIdentifier? (indent ++ (identifier ++ rest)) = some rest := by
  have hlength : identifier.length = 24 := by
    obtain ⟨hlength, -⟩ := Bool.and_eq_true_iff.mp h
    exact beq_iff_eq.mp hlength
  simp only [afterIdentifier?, skipBlanks_append hindent, skipBlanks_identifier h]
  rw [← hlength, List.take_left, List.drop_left, if_pos h]

theorem exists_letter_of_key (key : ArrayKey) :
    2 ≤ key.text.toList.length ∧ (key.text.toList.take 2).any (102 < ·.toNat) := by
  cases key <;> decide

theorem keyAtStart?_identifier (h : isIdentifier identifier) (rest : List Char) :
    keyAtStart? (identifier ++ rest) = none := by
  have hlength : 2 ≤ identifier.length := by
    obtain ⟨hlength, -⟩ := Bool.and_eq_true_iff.mp h
    have := beq_iff_eq.mp hlength
    omega
  rw [keyAtStart?, List.findSome?_eq_none_iff]
  intro key _
  rw [Option.map_eq_none_iff, after?, Option.eq_none_iff_forall_ne_some]
  intro r hr
  have he := List.isPrefixOf?_eq_some_iff_append_eq.mp hr
  obtain ⟨hkey, hletter⟩ := exists_letter_of_key key
  obtain ⟨c, hc, hletter⟩ := List.any_eq_true.mp hletter
  have hstart := congrArg (List.take 2) he
  rw [List.take_append_of_le_length hkey, List.take_append_of_le_length hlength] at hstart
  rw [hstart] at hc
  obtain ⟨-, hdigit⟩ := isHexDigit_bounds (isHexDigit_of_mem_identifier h (List.mem_of_mem_take hc))
  exact absurd (of_decide_eq_true hletter) (by omega)

/-- A line that starts with an identifier opens no array. -/
theorem arrayOpening?_identifier (hindent : AllBlank indent) (h : isIdentifier identifier)
    (rest : List Char) : arrayOpening? (indent ++ (identifier ++ rest)) = none := by
  rw [arrayOpening?, skipBlanks_append hindent, skipBlanks_identifier h, keyAtStart?_identifier h]
  rfl

end Identifiers

/-- An object identifier and the start of a comment, with blanks before the one and between the two. -/
structure CommentOpening where
  indent : List Char
  identifier : List Char
  gap : List Char
  indent_isBlank : AllBlank indent
  identifier_isIdentifier : isIdentifier identifier
  gap_ne_nil : gap ≠ []
  gap_isBlank : AllBlank gap

/-- The text of the opening, with what follows it. -/
def CommentOpening.append (o : CommentOpening) (rest : List Char) : List Char :=
  o.indent ++ (o.identifier ++ (o.gap ++ ("/*".toList ++ rest)))

theorem exists_of_afterIdentifier? {s rest : List Char} (h : afterIdentifier? s = some rest) :
    ∃ indent identifier, AllBlank indent ∧ isIdentifier identifier ∧
      s = indent ++ (identifier ++ rest) := by
  obtain ⟨indent, hb, hs, -⟩ := exists_blanks_append s
  simp only [afterIdentifier?, Option.ite_none_right_eq_some, Option.some.injEq] at h
  obtain ⟨hid, rfl⟩ := h
  exact ⟨indent, (skipBlanks s).take 24, hb, hid, by rw [List.take_append_drop]; exact hs⟩

/-- A comment starts after an identifier in every line that an opening of this form starts, and in no
other. -/
theorem afterCommentStart?_eq_some_iff {s rest : List Char} :
    afterCommentStart? s = some rest ↔ ∃ o : CommentOpening, s = o.append rest := by
  have hword : IsWord "/*".toList := by decide
  constructor
  · intro h
    obtain ⟨t, ht, hcomment⟩ := Option.bind_eq_some_iff.mp h
    obtain ⟨indent, identifier, hb, hid, rfl⟩ := exists_of_afterIdentifier? ht
    obtain ⟨gap, hne, hgap, rfl⟩ := (someBlanks_after?_eq_some_iff hword).mp hcomment
    exact ⟨⟨indent, identifier, gap, hb, hid, hne, hgap⟩, rfl⟩
  · rintro ⟨o, rfl⟩
    have hid := afterIdentifier?_append o.indent_isBlank o.identifier_isIdentifier
      (o.gap ++ ("/*".toList ++ rest))
    rw [afterCommentStart?, CommentOpening.append, hid]
    exact (someBlanks_after?_eq_some_iff hword).mpr ⟨o.gap, o.gap_ne_nil, o.gap_isBlank, rfl⟩

theorem CommentOpening.afterCommentStart?_append (o : CommentOpening) (rest : List Char) :
    afterCommentStart? (o.append rest) = some rest :=
  afterCommentStart?_eq_some_iff.mpr ⟨o, rfl⟩

def sampleOpening : CommentOpening where
  indent := "\t".toList
  identifier := "0123456789abcdef01234567".toList
  gap := " ".toList
  indent_isBlank := by decide
  identifier_isIdentifier := by decide
  gap_ne_nil := by decide
  gap_isBlank := by decide

/-- No comment ends inside a text that has no `*/` in it, nor with a character of the text and one of
what follows. -/
theorem append_ne_commentEnd {name back blanks rest more : List Char} (hname : IsTrimmed name)
    (hend : ¬ ['*', '/'] <:+: name) (hback : back <:+ name) (hne : back ≠ []) (hb : AllBlank blanks)
    (hrest : rest.head? ≠ some '/') : back ++ rest ≠ blanks ++ '*' :: '/' :: more := by
  intro he
  obtain ⟨back, rfl, hmore⟩ := hname.exists_cons hback hne hb he
  cases back with
  | nil => simp [show rest = '/' :: more from hmore] at hrest
  | cons c back =>
    obtain ⟨rfl, -⟩ := List.cons.inj hmore
    have hclose : ['*', '/'] <:+: blanks ++ '*' :: '/' :: back := ⟨blanks, back, by simp⟩
    exact hend (hclose.trans hback.isInfix)

end ProjectOrder.Document
