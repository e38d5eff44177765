import ProjectOrder.Document.Entry
import ProjectOrder.Proofs.Identifiers

/-! The names of the entries of arrays: all that stands in the comment after the identifier, but for
the blanks around it. -/
namespace ProjectOrder.Document
open ProjectOrder.Text

variable {key : ArrayKey} {name line : List Char}

/-- A line with an identifier, with `name` in the comment after it, and with a comma at its end. Blanks
may stand around all of these. -/
def IsEntry (name : List Char) (line : Line) : Prop :=
  ∃ (o : CommentOpening) (before after tail : List Char),
    AllBlank before ∧ AllBlank after ∧ AllBlank tail ∧
      line = o.append (before ++ (name ++ (after ++ ("*/,".toList ++ tail))))

theorem endsEntry_iff {s : List Char} :
    endsEntry s = true ↔ ∃ blanks tail, AllBlank blanks ∧ AllBlank tail ∧
      s = blanks ++ ("*/,".toList ++ tail) := by
  have hword : IsWord "*/".toList := by decide
  unfold endsEntry
  constructor
  · intro h
    split at h
    · next tail hend =>
      obtain ⟨t, ht, hcomma⟩ := Option.bind_eq_some_iff.mp hend
      obtain ⟨blanks, hb, rfl⟩ := (after?_skipBlanks_eq_some_iff hword).mp ht
      obtain rfl := append_of_after? hcomma
      exact ⟨blanks, tail, hb, h, rfl⟩
    · cases h
  · rintro ⟨blanks, tail, hb, ht, rfl⟩
    have hend : afterCommentEnd? (blanks ++ ("*/,".toList ++ tail)) = some (',' :: tail) :=
      (after?_skipBlanks_eq_some_iff hword).mpr ⟨blanks, hb, rfl⟩
    rw [hend]
    exact ht

theorem CommentOpening.entryName_append (o : CommentOpening) (key : ArrayKey) (rest : List Char) :
    key.entryName (o.append rest) =
      (nameUpTo (if key.holdsFiles then endsFileName else endsEntry) rest).getD [] := by
  rw [ArrayKey.entryName, o.afterCommentStart?_append, Option.bind_some]

theorem exists_of_entryName_ne_nil (h : key.entryName line ≠ []) :
    ∃ (o : CommentOpening) (rest : List Char), line = o.append rest := by
  cases hstart : afterCommentStart? line with
  | none => simp [ArrayKey.entryName, hstart] at h
  | some rest =>
    obtain ⟨o, ho⟩ := afterCommentStart?_eq_some_iff.mp hstart
    exact ⟨o, rest, ho⟩

theorem holdsFiles_eq_false (h : key ≠ .files) : key.holdsFiles = false := by
  simpa [ArrayKey.holdsFiles] using h

theorem stop_of_ne_files (hkey : key ≠ .files) :
    (if key.holdsFiles then endsFileName else endsEntry) = endsEntry := by
  rw [holdsFiles_eq_false hkey, if_neg (by simp)]

theorem entryName_of_isEntry (hkey : key ≠ .files) (hname : IsName name) (h : IsEntry name line) :
    key.entryName line = name := by
  obtain ⟨o, before, after, tail, hb, ha, ht, rfl⟩ := h
  have hstop : endsEntry (after ++ ("*/,".toList ++ tail)) = true :=
    endsEntry_iff.mpr ⟨after, tail, ha, ht, rfl⟩
  have hfound : nameUpTo endsEntry (before ++ (name ++ (after ++ ("*/,".toList ++ tail)))) =
      some name := by
    rw [hname.nameUpTo_eq_some_iff hb hstop]
    intro back hback hne
    rw [Bool.eq_false_iff]
    intro hends
    obtain ⟨blanks, tail', hblanks, ht', he⟩ := endsEntry_iff.mp hends
    -- An entry ends with its last character that is not blank, so that this is the same end.
    have hends : trimEnd ((back ++ after ++ "*/".toList) ++ ',' :: tail) =
        trimEnd ((blanks ++ "*/".toList) ++ ',' :: tail') := by
      simpa using congrArg trimEnd he
    rw [trimEnd_append (by decide) ht, trimEnd_append (by decide) ht'] at hends
    have hsame : back ++ after = blanks :=
      List.append_cancel_right (List.append_cancel_right hends)
    have hblank : AllBlank back := by
      rw [← hsame, AllBlank, List.all_append, Bool.and_eq_true] at hblanks
      exact hblanks.1
    exact hname.isTrimmed.not_allBlank (hback.trans (List.tail_suffix name)) hne hblank
  rw [o.entryName_append, stop_of_ne_files hkey, hfound, Option.getD_some]

theorem entryName_eq_nil_iff (hkey : key ≠ .files) :
    key.entryName line = [] ↔ ∀ name, name ≠ [] → IsLine name → ¬ IsEntry name line := by
  constructor
  · rintro hnil name hne hline ⟨o, before, after, tail, hb, ha, ht, rfl⟩
    rw [o.entryName_append, stop_of_ne_files hkey, nameUpTo_getD_eq_nil_iff, nameUpTo_eq_none_iff] at hnil
    have hends := hnil before name _ rfl hb hne hline
    rw [endsEntry_iff.mpr ⟨after, tail, ha, ht, rfl⟩] at hends
    cases hends
  · intro h
    by_contra hname
    obtain ⟨o, rest, rfl⟩ := exists_of_entryName_ne_nil hname
    rw [o.entryName_append, stop_of_ne_files hkey, nameUpTo_getD_eq_nil_iff, nameUpTo_eq_none_iff] at hname
    apply hname
    rintro before name back rfl hb hne hline
    rw [Bool.eq_false_iff]
    intro hends
    obtain ⟨after, tail, ha, ht, rfl⟩ := endsEntry_iff.mp hends
    exact h name hne hline ⟨o, before, after, tail, hb, ha, ht, rfl⟩

/-- An entry has all of its comment for its name, but for the blanks around it, whatever the name holds
itself. A line that is not of this form has no name. -/
theorem entry_names_are_whole (key : ArrayKey) (hkey : key ≠ .files) (line : Line) :
    (∀ name, IsName name → IsEntry name line → key.entryName line = name) ∧
      (key.entryName line = [] ↔ ∀ name, name ≠ [] → IsLine name → ¬ IsEntry name line) :=
  ⟨fun _ hname h => entryName_of_isEntry hkey hname h, entryName_eq_nil_iff hkey⟩

/-- A name with pieces in it that look like the end of an entry, in a line that ends with a carriage
return; and a comment that is left open. -/
theorem entry_names_are_whole_of_comment_end :
    (ArrayKey.children ≠ .files ∧ IsName "a */, b in c".toList ∧
      IsEntry "a */, b in c".toList (sampleOpening.append " a */, b in c */,\r".toList) ∧
      ArrayKey.children.entryName (sampleOpening.append " a */, b in c */,\r".toList) =
        "a */, b in c".toList) ∧
    (∀ name, name ≠ [] → IsLine name → ¬ IsEntry name (sampleOpening.append "a".toList)) ∧
      ArrayKey.children.entryName (sampleOpening.append "a".toList) = [] := by
  have hkey : ArrayKey.children ≠ .files := by decide
  have hname : IsName "a */, b in c".toList := ⟨by decide, by decide, by decide⟩
  have hentry : IsEntry "a */, b in c".toList (sampleOpening.append " a */, b in c */,\r".toList) :=
    ⟨sampleOpening, [' '], [' '], ['\r'], by decide, by decide, by decide, rfl⟩
  have hopen : ∀ name, name ≠ [] → IsLine name →
      ¬ IsEntry name (sampleOpening.append "a".toList) := by
    rintro name - - ⟨o, before, after, tail, -, -, -, he⟩
    have hcomma : ',' ∈ sampleOpening.append "a".toList := by
      rw [he]
      simp [CommentOpening.append]
    exact absurd hcomma (by decide)
  exact ⟨⟨hkey, hname, hentry, (entry_names_are_whole .children hkey _).1 _ hname hentry⟩, hopen,
    (entry_names_are_whole .children hkey _).2.mpr hopen⟩

end ProjectOrder.Document
