import Mathlib
import ProjectOrder.Proofs.EntryNames

/-! The names of files in build phases, which end in front of the phase. -/
namespace ProjectOrder.Document
open ProjectOrder.Text

section Phases
variable {s rest name back : List Char}

/-- The word `in` stands here between blanks. -/
def PhaseStarts (s : List Char) : Prop :=
  ∃ gap c rest, gap ≠ [] ∧ AllBlank gap ∧ isBlank c = true ∧ s = gap ++ 'i' :: 'n' :: c :: rest

/-- The word `in` stands here between blanks, or does so after the end of the comment. -/
def PhaseFollows (s : List Char) : Prop :=
  PhaseStarts s ∨ ∃ blanks rest, AllBlank blanks ∧ PhaseStarts rest ∧
    s = blanks ++ '*' :: '/' :: rest

theorem startsPhase_iff : startsPhase s = true ↔ PhaseStarts s := by
  have hword : IsWord "in".toList := by decide
  unfold startsPhase
  constructor
  · intro h
    split at h
    · next t hin =>
      obtain ⟨gap, hne, hgap, rfl⟩ := (someBlanks_after?_eq_some_iff hword).mp hin
      obtain ⟨c, hhead, hc⟩ := (Option.any_eq_true _ _).mp h
      obtain ⟨rest, rfl⟩ := List.head?_eq_some_iff.mp hhead
      exact ⟨gap, c, rest, hne, hgap, hc, rfl⟩
    · cases h
  · rintro ⟨gap, c, rest, hne, hgap, hc, rfl⟩
    have hin : (skipSomeBlanks? (gap ++ 'i' :: 'n' :: c :: rest)).bind (after? "in") =
        some (c :: rest) := (someBlanks_after?_eq_some_iff hword).mpr ⟨gap, hne, hgap, rfl⟩
    rw [hin]
    exact hc

theorem PhaseStarts.isBlank {c : Char} (h : PhaseStarts (c :: s)) : isBlank c = true := by
  obtain ⟨gap, _, _, hne, hgap, -, he⟩ := h
  obtain ⟨b, gap, rfl⟩ := List.exists_cons_of_ne_nil hne
  obtain ⟨rfl, -⟩ := List.cons.inj he
  exact (Bool.and_eq_true_iff.mp hgap).1

theorem PhaseStarts.two_lt_length (h : PhaseStarts s) : 2 < s.length := by
  obtain ⟨gap, c, rest, -, -, -, rfl⟩ := h
  simp only [List.length_append, List.length_cons]
  omega

theorem endsFileName_iff : endsFileName s = true ↔ PhaseFollows s := by
  have hword : IsWord "*/".toList := by decide
  rw [endsFileName, Bool.or_eq_true, or_comm, startsPhase_iff, PhaseFollows]
  refine or_congr_right ?_
  rw [Option.any_eq_true]
  constructor
  · rintro ⟨rest, hend, hrest⟩
    obtain ⟨blanks, hb, rfl⟩ := (after?_skipBlanks_eq_some_iff hword).mp hend
    exact ⟨blanks, rest, hb, startsPhase_iff.mp hrest, rfl⟩
  · rintro ⟨blanks, rest, hb, hrest, rfl⟩
    exact ⟨rest, (after?_skipBlanks_eq_some_iff hword).mpr ⟨blanks, hb, rfl⟩,
      startsPhase_iff.mpr hrest⟩

/-- The word `in` stands in the name between blanks, or after a blank at the end of it. -/
def HoldsPhaseWord (name : List Char) : Prop :=
  ∃ c d, isBlank c = true ∧ isBlank d = true ∧ [c, 'i', 'n', d] <:+: name ++ [' ']

theorem holdsPhaseWord_iff_exists_suffix :
    HoldsPhaseWord name ↔ ∃ t, t <:+ name ++ [' '] ∧ PhaseStarts t := by
  constructor
  · rintro ⟨c, d, hc, hd, front, rest, he⟩
    have hstarts : PhaseStarts (c :: 'i' :: 'n' :: d :: rest) :=
      ⟨[c], d, rest, by simp, by simpa using hc, hd, rfl⟩
    exact ⟨_, ⟨front, by simpa using he⟩, hstarts⟩
  · rintro ⟨t, hsuffix, gap, d, rest, hgap, hb, hd, rfl⟩
    obtain ⟨blanks, c, rfl⟩ := List.eq_nil_or_concat' gap |>.resolve_left hgap
    have hc : isBlank c = true := List.all_eq_true.mp hb c (by simp)
    have hword : [c, 'i', 'n', d] <:+: (blanks ++ [c]) ++ 'i' :: 'n' :: d :: rest :=
      ⟨blanks, rest, by simp⟩
    exact ⟨c, d, hc, hd, hword.trans hsuffix.isInfix⟩

instance (name : List Char) : Decidable (HoldsPhaseWord name) :=
  decidable_of_iff ((name ++ [' ']).tails.any startsPhase) (by
    simp only [holdsPhaseWord_iff_exists_suffix, List.any_eq_true, List.mem_tails, startsPhase_iff])

/-- In a name without the end of a comment, a phase follows where its word starts. -/
theorem phaseFollows_append_iff (hname : IsName name) (hend : ¬ ['*', '/'] <:+: name)
    (hback : back <:+ name) (hne : back ≠ []) :
    PhaseFollows (back ++ ' ' :: rest) ↔ PhaseStarts (back ++ [' ']) := by
  constructor
  · rintro (⟨gap, c, more, hgap, hb, hc, he⟩ | ⟨blanks, more, hb, -, he⟩)
    · obtain ⟨back', rfl, hmore⟩ := hname.isTrimmed.exists_cons hback hne hb he
      refine ⟨gap, c, ?_⟩
      cases back' with
      | nil => simp at hmore
      | cons d back' =>
        obtain ⟨rfl, hlast⟩ := List.cons.inj hmore
        cases back' with
        | nil =>
          obtain ⟨rfl, rfl⟩ := List.cons.inj hlast
          exact ⟨[], hgap, hb, hc, by simp⟩
        | cons e back' =>
          obtain ⟨rfl, rfl⟩ := List.cons.inj hlast
          exact ⟨back' ++ [' '], hgap, hb, hc, by simp⟩
    · exact absurd he (append_ne_commentEnd hname.isTrimmed hend hback hne hb (by simp))
  · rintro ⟨gap, c, more, hgap, hb, hc, he⟩
    refine .inl ⟨gap, c, more ++ rest, hgap, hb, hc, ?_⟩
    rw [← List.singleton_append, ← List.append_assoc, he]
    simp

theorem holdsPhaseWord_iff (hname : IsName name) :
    HoldsPhaseWord name ↔
      ∃ back, back <:+ name.tail ∧ back ≠ [] ∧ PhaseStarts (back ++ [' ']) := by
  obtain ⟨c, tail, rfl, hc, -, -⟩ := hname.exists_cons
  rw [holdsPhaseWord_iff_exists_suffix]
  constructor
  · rintro ⟨t, hsuffix, hstarts⟩
    rcases List.suffix_concat_iff.mp hsuffix with rfl | ⟨back, rfl, hback⟩
    · exact absurd hstarts.two_lt_length (by simp)
    · rcases List.suffix_cons_iff.mp hback with rfl | hback
      · -- The name starts with another character than the blank before the word.
        rw [hstarts.isBlank] at hc
        cases hc
      · refine ⟨back, hback, ?_, hstarts⟩
        rintro rfl
        exact absurd hstarts.two_lt_length (by simp)
  · rintro ⟨back, ⟨front, rfl⟩, -, hstarts⟩
    exact ⟨back ++ [' '], ⟨c :: front, by simp⟩, hstarts⟩

/-- A file with the phase that it is built in, both in the comment. -/
def phaseInside (o : CommentOpening) (name phase : List Char) : Line :=
  o.append (' ' :: (name ++ (" in ".toList ++ (phase ++ " */,".toList))))

/-- A file with the phase that it is built in, this after the comment. -/
def phaseOutside (o : CommentOpening) (name phase : List Char) : Line :=
  o.append (' ' :: (name ++ (" */ in ".toList ++ (phase ++ ",".toList))))

theorem entryName_files_iff (o : CommentOpening) (hname : IsName name)
    (hend : ¬ ['*', '/'] <:+: name) (hrest : PhaseFollows (' ' :: rest)) :
    ArrayKey.files.entryName (o.append (' ' :: (name ++ ' ' :: rest))) = name ↔
      ¬ HoldsPhaseWord name := by
  have hblank : AllBlank [' '] := by decide
  have hiff := hname.nameUpTo_eq_some_iff hblank (endsFileName_iff.mpr hrest)
  have hfound : (nameUpTo endsFileName (' ' :: (name ++ ' ' :: rest))).getD [] = name ↔
      nameUpTo endsFileName ([' '] ++ (name ++ ' ' :: rest)) = some name := by
    rw [List.singleton_append]
    cases nameUpTo endsFileName (' ' :: (name ++ ' ' :: rest)) with
    | none => simpa using hname.ne_nil.symm
    | some found => simp
  rw [o.entryName_append, show ArrayKey.files.holdsFiles = true from rfl, if_pos rfl, hfound, hiff,
    holdsPhaseWord_iff hname]
  simp only [not_exists, not_and, ← Bool.not_eq_true, endsFileName_iff]
  refine forall₃_congr fun back hback hne => not_congr ?_
  exact phaseFollows_append_iff hname hend (hback.trans (List.tail_suffix name)) hne

end Phases

/-- The name of a file is found whole, wherever the phase stands, exactly if it holds no word that looks
like the start of one. -/
theorem file_names_are_whole_iff (o : CommentOpening) (name phase : List Char) (hname : IsName name)
    (hend : ¬ ['*', '/'] <:+: name) :
    (ArrayKey.files.entryName (phaseInside o name phase) = name ↔ ¬ HoldsPhaseWord name) ∧
      (ArrayKey.files.entryName (phaseOutside o name phase) = name ↔ ¬ HoldsPhaseWord name) := by
  have hblank : AllBlank [' '] := by decide
  have hstarts : ∀ s, PhaseStarts (' ' :: 'i' :: 'n' :: ' ' :: s) :=
    fun s => ⟨[' '], ' ', s, by simp, hblank, by decide, rfl⟩
  constructor
  · exact entryName_files_iff o hname hend (.inl (hstarts _))
  · exact entryName_files_iff o hname hend (.inr ⟨[' '], _, hblank, hstarts _, rfl⟩)

theorem file_names_are_whole_iff_of_other_word :
    (IsName "Main in.swift".toList ∧ ¬ ['*', '/'] <:+: "Main in.swift".toList) ∧
      ArrayKey.files.entryName (phaseInside sampleOpening "Main in.swift".toList "Sources".toList) =
        "Main in.swift".toList := by
  have hname : IsName "Main in.swift".toList := ⟨by decide, by decide, by decide⟩
  have hend : ¬ ['*', '/'] <:+: "Main in.swift".toList := by decide +kernel
  have h := file_names_are_whole_iff sampleOpening _ "Sources".toList hname hend
  exact ⟨⟨hname, hend⟩, h.1.mpr (by decide +kernel)⟩

def checkInButton : Line :=
  phaseOutside sampleOpening "Check in Button.swift".toList "Sources".toList

def checkInField : Line :=
  phaseOutside sampleOpening "Check in Field.swift".toList "Sources".toList

/-- A name with such a word in it is cut short in front of the word, wherever the phase stands. Files
that differ only after the word are not told apart then, and stay in the order in which they are listed. -/
theorem file_names_cut_at_phase_word :
    (IsName "Check in Button.swift".toList ∧ ¬ ['*', '/'] <:+: "Check in Button.swift".toList) ∧
    ArrayKey.files.entryName
        (phaseInside sampleOpening "Check in Button.swift".toList "Sources".toList) =
      "Check".toList ∧
    ArrayKey.files.entryName checkInButton = "Check".toList ∧
    ArrayKey.files.entryName checkInField = "Check".toList ∧
    (ArrayKey.files.arrange (.of false []) [checkInButton, checkInField]).entries =
      [checkInButton, checkInField] ∧
    (ArrayKey.files.arrange (.of false []) [checkInField, checkInButton]).entries =
      [checkInField, checkInButton] := by
  have hname : IsName "Check in Button.swift".toList := ⟨by decide, by decide, by decide⟩
  refine ⟨⟨hname, by decide +kernel⟩, by decide +kernel, by decide +kernel, by decide +kernel, ?_, ?_⟩
  · cbv
  · cbv

end ProjectOrder.Document
