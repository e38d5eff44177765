import ProjectOrder.Proofs.FileNames
import ProjectOrder.Proofs.SortedLines
import ProjectOrder.Proofs.StableSort

/-! Entries whose comments are blank: which of them have a blank for their name, and where they stand. -/
namespace ProjectOrder.Document
open ProjectOrder.Name ProjectOrder.Text

section Ends
variable {c : Char} {s rest : List Char}

theorem allowsBlanks_endsEntry : AllowsBlanks endsEntry := by
  intro c s hc h
  obtain ⟨blanks, tail, hb, ht, rfl⟩ := endsEntry_iff.mp h
  exact endsEntry_iff.mpr ⟨c :: blanks, tail, by simpa [AllBlank, hc] using hb, ht, rfl⟩

theorem allowsBlanks_endsFileName : AllowsBlanks endsFileName := by
  intro c s hc h
  refine endsFileName_iff.mpr ?_
  rcases endsFileName_iff.mp h with ⟨gap, d, rest, hne, hgap, hd, rfl⟩ | ⟨blanks, rest, hb, hr, rfl⟩
  · exact .inl ⟨c :: gap, d, rest, by simp, by simpa [AllBlank, hc] using hgap, hd, rfl⟩
  · exact .inr ⟨c :: blanks, rest, by simpa [AllBlank, hc] using hb, hr, rfl⟩

/-- No build phase follows anything in the first line of the text. -/
def LacksPhases (s : List Char) : Prop :=
  ∀ front back, s = front ++ back → IsLine front → ¬ PhaseFollows back

theorem upTo_endsFileName_eq_none_iff : upTo endsFileName s = none ↔ LacksPhases s := by
  simp only [upTo_eq_none_iff, LacksPhases, ← Bool.not_eq_true, endsFileName_iff]

theorem blank_or_star_of_phaseFollows (h : PhaseFollows (c :: s)) : isBlank c = true ∨ c = '*' := by
  rcases h with hstarts | ⟨blanks, rest, hb, -, he⟩
  · exact .inl hstarts.isBlank
  · cases blanks with
    | nil => exact .inr (List.cons.inj he).1
    | cons b blanks =>
      obtain ⟨rfl, -⟩ := List.cons.inj he
      exact .inl (Bool.and_eq_true_iff.mp hb).1

theorem lacksPhases_cons_iff (hblank : isBlank c = false) (hstar : c ≠ '*') :
    LacksPhases (c :: s) ↔ someUpTo endsFileName (c :: s) = none := by
  have hnot : ¬ PhaseFollows (c :: s) := by
    intro h
    rcases blank_or_star_of_phaseFollows h with h | h
    · rw [hblank] at h
      cases h
    · exact hstar h
  simp only [someUpTo_eq_none_iff, ← Bool.not_eq_true, endsFileName_iff]
  constructor
  · exact fun h front back he _ hline => h front back he hline
  · rintro h (_ | ⟨d, front⟩) back he hline
    · rwa [← show c :: s = back from he]
    · exact h (d :: front) back he (by simp) hline

/-- After the end of a comment a name can end only where a phase follows. -/
theorem someUpTo_close_eq_none_iff :
    someUpTo endsFileName ('*' :: '/' :: rest) = none ↔ LacksPhases rest := by
  have hslash : isLineTerminator '/' = false := by decide
  have hnot : endsFileName ('/' :: rest) = false := by
    rw [← Bool.not_eq_true, endsFileName_iff]
    intro h
    rcases blank_or_star_of_phaseFollows h with h | h <;> simp [isBlank] at h
  rw [← upTo_endsFileName_eq_none_iff, someUpTo, upTo, hnot, hslash]
  simp [isLineTerminator]

end Ends

section Names
variable {key : ArrayKey} {line comment rest : List Char}

/-- An entry with nothing but blanks in its comment. -/
def IsBlankEntry (comment : List Char) (line : Line) : Prop :=
  ∃ (o : CommentOpening) (tail : List Char), AllBlank comment ∧ AllBlank tail ∧
    line = o.append (comment ++ ("*/,".toList ++ tail))

/-- A line in whose comment a phase stands in place of the name, after two or more blanks, and in which
no other phase follows. -/
def LacksFileName (line : Line) : Prop :=
  ∃ (o : CommentOpening) (front : List Char) (c : Char) (gap : List Char) (d : Char)
    (rest : List Char), AllBlank front ∧ isBlank c = true ∧ isLineTerminator c = false ∧
      gap ≠ [] ∧ AllBlank gap ∧ isBlank d = true ∧ LacksPhases ('i' :: 'n' :: d :: rest) ∧
      line = o.append (front ++ c :: (gap ++ 'i' :: 'n' :: d :: rest))

/-- A line has a trimmed name, if it has none but for a line with a comment that says otherwise. -/
theorem isTrimmed_entryName_of_comment
    (h : ∀ (o : CommentOpening) blanks t, AllBlank blanks → (∀ c ∈ t.head?, isBlank c = false) →
      line = o.append (blanks ++ t) → IsTrimmed (key.entryName line)) :
    IsTrimmed (key.entryName line) := by
  by_cases hname : key.entryName line = []
  · rw [hname]
    exact ⟨rfl, rfl⟩
  · obtain ⟨o, rest, hline⟩ := exists_of_entryName_ne_nil hname
    obtain ⟨blanks, hb, hrest, hhead⟩ := exists_blanks_append rest
    exact h o blanks (skipBlanks rest) hb hhead (hrest ▸ hline)

theorem not_isBlank_head?_ending (tail : List Char) :
    ∀ c ∈ ("*/,".toList ++ tail).head?, isBlank c = false := by
  rintro c ⟨⟩
  decide

/-- No name is found from the end of an entry on. -/
theorem someUpTo_endsEntry_eq_none {tail : List Char} (ht : AllBlank tail) :
    someUpTo endsEntry ('*' :: '/' :: ',' :: tail) = none := by
  rw [someUpTo_eq_none_iff]
  rintro (_ | ⟨c, front⟩) back he hne -
  · exact absurd rfl hne
  · obtain ⟨rfl, hafter⟩ := List.cons.inj he
    rw [Bool.eq_false_iff]
    intro hends
    obtain ⟨blanks, tail', -, -, rfl⟩ := endsEntry_iff.mp hends
    have hstar : '*' ∈ '/' :: ',' :: tail := by
      rw [hafter]
      simp
    have hstar : '*' ∈ tail := by simpa using hstar
    exact absurd (List.all_eq_true.mp ht '*' hstar) (by decide)

/-- An end of an entry stands after each of the blanks before it, so that none of them can be part of a
line. -/
theorem forall_blank_iff {tail : List Char} (hb : AllBlank comment) (ht : AllBlank tail) :
    (∀ front c back, comment = front ++ c :: back → isLineTerminator c = false →
        endsEntry (back ++ ("*/,".toList ++ tail)) = false) ↔
      comment.all isLineTerminator := by
  rw [List.all_eq_true]
  constructor
  · intro h c hc
    obtain ⟨front, back, rfl⟩ := List.append_of_mem hc
    by_contra hterm
    obtain ⟨-, -, hback⟩ := allBlank_append_cons_iff.mp hb
    have hends := h front c back rfl (by simpa using hterm)
    rw [endsEntry_iff.mpr ⟨back, tail, hback, ht, rfl⟩] at hends
    cases hends
  · rintro h front c back rfl hterm
    have := h c (by simp)
    rw [hterm] at this
    cases this

theorem entryName_of_isBlankEntry (hkey : key ≠ .files) (h : IsBlankEntry comment line) :
    key.entryName line = [] ↔ comment.all isLineTerminator := by
  obtain ⟨o, tail, hb, ht, rfl⟩ := h
  rw [o.entryName_append, stop_of_ne_files hkey, nameUpTo_getD_eq_nil_iff,
    nameUpTo_blanks_eq_none_iff hb (not_isBlank_head?_ending tail), forall_blank_iff hb ht]
  exact and_iff_right (someUpTo_endsEntry_eq_none ht)

theorem isTrimmed_entryName_iff (hkey : key ≠ .files) :
    IsTrimmed (key.entryName line) ↔
      ∀ comment, IsBlankEntry comment line → comment.all isLineTerminator := by
  constructor
  · rintro htrim comment ⟨o, tail, hb, ht, rfl⟩
    rw [o.entryName_append, stop_of_ne_files hkey,
      isTrimmed_nameUpTo_iff allowsBlanks_endsEntry hb (not_isBlank_head?_ending tail)] at htrim
    exact (forall_blank_iff hb ht).mp (htrim (someUpTo_endsEntry_eq_none ht))
  · intro h
    refine isTrimmed_entryName_of_comment ?_
    rintro o blanks t hb hhead rfl
    rw [o.entryName_append, stop_of_ne_files hkey,
      isTrimmed_nameUpTo_iff allowsBlanks_endsEntry hb hhead]
    rintro - front c back rfl hterm
    rw [Bool.eq_false_iff]
    intro hends
    obtain ⟨after, tail, ha, ht, he⟩ := endsEntry_iff.mp hends
    obtain ⟨hf, hc, -⟩ := allBlank_append_cons_iff.mp hb
    have hcomment : AllBlank (front ++ c :: after) := allBlank_append_cons_iff.mpr ⟨hf, hc, ha⟩
    have hall := h (front ++ c :: after) ⟨o, tail, hcomment, ht, by simp [he]⟩
    have := List.all_eq_true.mp hall c (by simp)
    rw [hterm] at this
    cases this

theorem isTrimmed_fileName_iff :
    IsTrimmed (ArrayKey.files.entryName line) ↔ ¬ LacksFileName line := by
  have hstop : (if ArrayKey.files.holdsFiles then endsFileName else endsEntry) = endsFileName := rfl
  constructor
  · rintro htrim ⟨o, front, c, gap, d, rest, hf, hc, hterm, hne, hgap, hd, hlacks, rfl⟩
    have hb : AllBlank (front ++ c :: gap) := allBlank_append_cons_iff.mpr ⟨hf, hc, hgap⟩
    have hhead : ∀ x ∈ ('i' :: 'n' :: d :: rest).head?, isBlank x = false := by
      rintro x ⟨⟩
      decide
    have hnone : someUpTo endsFileName ('i' :: 'n' :: d :: rest) = none :=
      (lacksPhases_cons_iff (by decide) (by decide)).mp hlacks
    rw [o.entryName_append, hstop, show front ++ c :: (gap ++ 'i' :: 'n' :: d :: rest) =
      (front ++ c :: gap) ++ 'i' :: 'n' :: d :: rest by simp,
      isTrimmed_nameUpTo_iff allowsBlanks_endsFileName hb hhead] at htrim
    have hends := htrim hnone front c gap rfl hterm
    rw [endsFileName_iff.mpr (.inl ⟨gap, d, rest, hne, hgap, hd, rfl⟩)] at hends
    cases hends
  · intro h
    refine isTrimmed_entryName_of_comment ?_
    rintro o blanks t hb hhead rfl
    rw [o.entryName_append, hstop, isTrimmed_nameUpTo_iff allowsBlanks_endsFileName hb hhead]
    rintro hnone front c back rfl hterm
    obtain ⟨hf, hc, hback⟩ := allBlank_append_cons_iff.mp hb
    rw [← Bool.not_eq_true, endsFileName_iff]
    rintro (⟨gap, d, rest, hne, hgap, hd, he⟩ | ⟨after, rest, ha, hr, he⟩)
    · obtain ⟨rfl, rfl⟩ := blanks_append_inj hback hgap hhead (by rintro x ⟨⟩; decide) he
      refine h ⟨o, front, c, back, d, rest, hf, hc, hterm, hne, hgap, hd, ?_, by simp⟩
      exact (lacksPhases_cons_iff (by decide) (by decide)).mpr hnone
    · obtain ⟨rfl, rfl⟩ := blanks_append_inj hback ha hhead (by rintro x ⟨⟩; decide) he
      exact someUpTo_close_eq_none_iff.mp hnone [] rest rfl (by simp) (.inl hr)

/-- After a blank comment the name of a file is found only where a phase follows. -/
theorem fileName_of_blankComment (o : CommentOpening) (hb : AllBlank comment) :
    ArrayKey.files.entryName (o.append (comment ++ '*' :: '/' :: rest)) = [] ↔
      LacksPhases rest := by
  have hhead : ∀ c ∈ ('*' :: '/' :: rest).head?, isBlank c = false := by
    rintro c ⟨⟩
    decide
  rw [o.entryName_append, show ArrayKey.files.holdsFiles = true from rfl, if_pos rfl,
    nameUpTo_getD_eq_nil_iff, nameUpTo_blanks_eq_none_iff hb hhead, someUpTo_close_eq_none_iff]
  refine and_iff_left_of_imp ?_
  rintro hlacks front c back rfl -
  obtain ⟨-, -, hback⟩ := allBlank_append_cons_iff.mp hb
  rw [← Bool.not_eq_true, endsFileName_iff]
  rintro (⟨gap, d, more, -, hgap, -, he⟩ | ⟨after, more, ha, hr, he⟩)
  · obtain ⟨-, he⟩ := blanks_append_inj hback hgap hhead (by rintro x ⟨⟩; decide) he
    simp at he
  · obtain ⟨-, he⟩ := blanks_append_inj hback ha hhead (by rintro x ⟨⟩; decide) he
    obtain rfl : rest = more := by simpa using he
    exact hlacks [] rest rfl (by simp) (.inl hr)

end Names

section Regions
variable {rules : Rules} {key : ArrayKey} {entry : Line}

/-- The different entries that have no name. -/
def ArrayKey.unnamed (key : ArrayKey) (entries : List Line) : Finset Line :=
  entries.toFinset.filter fun entry => key.entryName entry = []

/-- An array is sorted into its folders and, after all of these, its files. -/
structure SortsInto (rules : Rules) (key : ArrayKey) (line : Int) (entries folders files : List Line) :
    Prop where
  lines_eq : (sortArray rules key line entries).lines = folders ++ files
  folder : ∀ entry ∈ folders, (key.entryRank rules entry).folder = true
  file : ∀ entry ∈ files, (key.entryRank rules entry).folder = false
  unnamed_eq : (sortArray rules key line entries).tallies.map Tally.unnamed =
    [(key.unnamed entries).card]

/-- A list in which no item that fails the test is followed by one that passes it. -/
theorem filter_append_filter_not {p : α → Bool} {items : List α}
    (h : items.Pairwise fun a b => p b → p a) :
    items.filter p ++ items.filter (!p ·) = items := by
  induction items with
  | nil => rfl
  | cons a items ih =>
    obtain ⟨ha, hitems⟩ := List.pairwise_cons.mp h
    by_cases hp : p a
    · simp [hp, ih hitems]
    · have hall : ∀ b ∈ items, p b = false := by
        intro b hb
        rw [Bool.eq_false_iff]
        exact fun hpb => hp (ha b hb hpb)
      have hnone : items.filter p = [] := by simpa using hall
      have hself : items.filter (!p ·) = items := by simpa using hall
      simp [hp, hnone, hself]

theorem folder_of_le {a b : Rank} (h : a.Le b) (hb : b.folder = true) : a.folder = true := by
  obtain ⟨fa, na⟩ := a
  obtain ⟨fb, nb⟩ := b
  subst hb
  cases fa with
  | true => rfl
  | false => simp [Rank.Le, Rank.compare] at h

theorem exists_sortsInto (rules : Rules) (key : ArrayKey) (line : Int) (entries : List Line) :
    ∃ folders files, SortsInto rules key line entries folders files := by
  let folder (entry : Line) : Bool := (key.entryRank rules entry).folder
  have hsorted := isStableSort_arranged (key.entryRank rules) entries
  have hfolders : (arranged id (key.entryRank rules) entries).Pairwise fun a b =>
      folder b → folder a := hsorted.rising.imp folder_of_le
  refine ⟨(arranged id (key.entryRank rules) entries).filter folder,
    (arranged id (key.entryRank rules) entries).filter (!folder ·), ?_, ?_, ?_, ?_⟩
  · rw [filter_append_filter_not hfolders, sortArray, entries_arrange]
  · exact fun entry hentry => (List.mem_filter.mp hentry).2
  · exact fun entry hentry => by simpa [folder] using (List.mem_filter.mp hentry).2
  · have hset : key.unnamed entries = ((arranged id (key.entryRank rules) entries).filter
        fun entry => (key.entryName entry).isEmpty).toFinset := by
      ext entry
      simp [ArrayKey.unnamed, hsorted.mem_iff]
    rw [hset, List.toFinset_card_of_nodup (hsorted.nodup.filter _), sortArray, entries_arrange,
      List.map_singleton, List.countP_eq_length_filter]

theorem SortsInto.mem_files_iff {line : Int} {entries folders files : List Line}
    (h : SortsInto rules key line entries folders files) (hentry : entry ∈ entries) :
    entry ∈ files ↔ (key.entryRank rules entry).folder = false := by
  refine ⟨h.file entry, fun hfile => ?_⟩
  have hmem : entry ∈ folders ++ files := by
    rw [← h.lines_eq, sortArray, entries_arrange]
    exact (isStableSort_arranged _ _).mem_iff.mpr hentry
  rcases List.mem_append.mp hmem with hfolder | hfiles
  · rw [h.folder entry hfolder] at hfile
    cases hfile
  · exact hfiles

/-- An entry without a name stands among the files. -/
theorem SortsInto.unnamed_file_iff {line : Int} {entries folders files : List Line}
    (h : SortsInto rules key line entries folders files) (hentry : entry ∈ entries) :
    entry ∈ key.unnamed entries ∧ entry ∈ files ↔ key.entryName entry = [] := by
  have hunnamed : entry ∈ key.unnamed entries ↔ key.entryName entry = [] := by
    simp [ArrayKey.unnamed, hentry]
  rw [hunnamed, h.mem_files_iff hentry]
  refine and_iff_left_of_imp fun hname => ?_
  rw [ArrayKey.entryRank, hname]
  split
  · rfl
  · simp [Rules.rank, Rules.isFolder]

end Regions

/-- The names of entries have no blanks at their ends, but for those that are a blank: in a comment that
is blank, unless line terminators are all that it holds; and where the phase of a file stands in place of
its name. So an entry with a blank comment is counted among those without a name, and stands among the
files, if it holds line terminators alone; and one of an array of files does if no phase follows its
comment. -/
theorem names_trimmed_unless_blank (rules : Rules) :
    (∀ (key : ArrayKey) (line : Line), key ≠ .files →
      (IsTrimmed (key.entryName line) ↔
        ∀ comment, IsBlankEntry comment line → comment.all isLineTerminator)) ∧
    (∀ line, IsTrimmed (ArrayKey.files.entryName line) ↔ ¬ LacksFileName line) ∧
    ∀ (key : ArrayKey) (line : Int) (entries : List Line), ∃ folders files,
      SortsInto rules key line entries folders files ∧
      ∀ entry ∈ entries,
        (key ≠ .files → ∀ comment, IsBlankEntry comment entry →
          (entry ∈ key.unnamed entries ∧ entry ∈ files ↔ comment.all isLineTerminator)) ∧
        (key = .files → ∀ (o : CommentOpening) (comment rest : List Char), AllBlank comment →
          entry = o.append (comment ++ '*' :: '/' :: rest) →
          (entry ∈ key.unnamed entries ∧ entry ∈ files ↔ LacksPhases rest)) := by
  refine ⟨fun key line hkey => isTrimmed_entryName_iff hkey, fun line => isTrimmed_fileName_iff, ?_⟩
  intro key line entries
  obtain ⟨folders, files, hsorts⟩ := exists_sortsInto rules key line entries
  refine ⟨folders, files, hsorts, fun entry hentry => ⟨?_, ?_⟩⟩
  · intro hkey comment hcomment
    rw [hsorts.unnamed_file_iff hentry, entryName_of_isBlankEntry hkey hcomment]
  · rintro rfl o comment rest hb rfl
    rw [hsorts.unnamed_file_iff hentry, fileName_of_blankComment o hb]

/-- An entry with a carriage return alone in its comment. -/
def returnEntry : Line :=
  sampleOpening.append "\r*/,".toList

/-- An entry with one blank in its comment. -/
def blankEntry : Line :=
  sampleOpening.append " */,".toList

def fileEntry : Line :=
  sampleOpening.append " a.m */,".toList

theorem names_trimmed_unless_blank_of_return :
    (ArrayKey.children ≠ .files ∧ returnEntry ∈ [fileEntry, returnEntry] ∧
      IsBlankEntry "\r".toList returnEntry ∧ IsTrimmed (ArrayKey.children.entryName returnEntry)) ∧
    (∃ folders files,
      SortsInto (.of false []) .children 1 [fileEntry, returnEntry] folders files ∧
      returnEntry ∈ ArrayKey.children.unnamed [fileEntry, returnEntry] ∧ returnEntry ∈ files) ∧
    ∃ folders files, SortsInto (.of false []) .files 1 [fileEntry, blankEntry] folders files ∧
      blankEntry ∈ ArrayKey.files.unnamed [fileEntry, blankEntry] ∧ blankEntry ∈ files := by
  have hkey : ArrayKey.children ≠ .files := by decide
  have hreturn : IsBlankEntry "\r".toList returnEntry :=
    ⟨sampleOpening, [], by decide, by decide, rfl⟩
  have hlacks : LacksPhases [','] := upTo_endsFileName_eq_none_iff.mp (by decide +kernel)
  obtain ⟨hnames, -, hregions⟩ := names_trimmed_unless_blank (.of false [])
  refine ⟨⟨hkey, by simp, hreturn, ?_⟩, ?_, ?_⟩
  · rw [hnames .children returnEntry hkey]
    rintro comment ⟨o, tail, hb, ht, he⟩
    -- There is no other blank entry that reads the same.
    have hname := entryName_of_isBlankEntry hkey ⟨o, tail, hb, ht, he⟩
    exact hname.mp (by decide +kernel)
  · obtain ⟨folders, files, hsorts, hentries⟩ := hregions .children 1 [fileEntry, returnEntry]
    have hiff := (hentries returnEntry (by simp)).1 hkey _ hreturn
    exact ⟨folders, files, hsorts, hiff.mpr (by decide)⟩
  · obtain ⟨folders, files, hsorts, hentries⟩ := hregions .files 1 [fileEntry, blankEntry]
    have hiff := (hentries blankEntry (by simp)).2 rfl sampleOpening [' '] [','] (by decide) rfl
    exact ⟨folders, files, hsorts, hiff.mpr hlacks⟩

/-- A blank in a comment is taken for a name, and that for the name of a folder. Where files are listed
it is the name in front of a phase, and the end of the comment is one if the phase comes after it. -/
theorem blank_comment_taken_for_folder :
    ArrayKey.children.entryName blankEntry = [' '] ∧
    sortArray (.of false []) .children 1 [fileEntry, blankEntry] =
      { lines := [blankEntry, fileEntry]
        tallies := [
          { kind := .array, name := "children", line := 1, entries := 2, reordered := true }] } ∧
    ArrayKey.files.entryName (sampleOpening.append "  in Sources */,".toList) = [' '] ∧
    ArrayKey.files.entryName (sampleOpening.append " */ in Sources,".toList) = "*/".toList := by
  refine ⟨by decide +kernel, ?_, by decide +kernel, by decide +kernel⟩
  cbv

end ProjectOrder.Document
