import ProjectOrder.Proofs.Patterns
import ProjectOrder.Proofs.Segmentation

/-! The markers of sections: what begins a section of some kind, and what ends it and no other. -/
namespace ProjectOrder.Document
open ProjectOrder.Text ProjectOrder.Text.Pattern

/-- The line that begins a section. -/
def beginMarker (kind : String) : Line :=
  "/* Begin ".toList ++ (kind.toList ++ " section */".toList)

/-- The line that ends a section. -/
def endMarker (kind : String) : Line :=
  "/* End ".toList ++ (kind.toList ++ " section */".toList)

/-- What the end of a section is searched for with. -/
def endPattern (kind : String) : List Item :=
  literal "End".toList ++ .blanks :: (literal kind.toList ++ .blanks :: literal "section".toList)

/-- The pattern of the end of a section, as it is written. -/
def endPatternText (kind : String) : List Char :=
  "End\\s+".toList ++ (escaped kind.toList ++ "\\s+section".toList)

section Patterns
variable {kind : String} {line s : List Char}

/-- Whatever the kind is made of, the pattern is read as it is meant. -/
theorem readPattern?_endPatternText (kind : String) :
    readPattern? (endPatternText kind) = some (endPattern kind) := by
  have hblanks : ∀ rest, readPattern? ("\\s+".toList ++ rest) =
      (readPattern? rest).map (.blanks :: ·) := fun _ => rfl
  have hsection : readPattern? ("\\s+".toList ++ "section".toList) =
      some (.blanks :: literal "section".toList) := rfl
  calc readPattern? (endPatternText kind)
    _ = readPattern? (escaped "End".toList ++ ("\\s+".toList ++
          (escaped kind.toList ++ ("\\s+".toList ++ "section".toList)))) := rfl
    _ = some (endPattern kind) := by
      rw [readPattern?_escaped_append, hblanks, readPattern?_escaped_append, hsection]
      rfl

theorem anywhere_iff {test : List Char → Bool} :
    anywhere test s = true ↔ ∃ rest, rest <:+ s ∧ test rest = true := by
  induction s with
  | nil => simp [anywhere]
  | cons c s ih =>
    rw [anywhere, Bool.or_eq_true, ih]
    simp only [List.suffix_cons_iff, or_and_right, exists_or, exists_eq_left]

theorem afterBlanks_iff {test : List Char → Bool} :
    afterBlanks test s = true ↔
      ∃ gap rest, gap ≠ [] ∧ AllBlank gap ∧ s = gap ++ rest ∧ test rest = true := by
  induction s with
  | nil => simp [afterBlanks]
  | cons c s ih =>
    rw [afterBlanks, Bool.and_eq_true, Bool.or_eq_true, ih]
    constructor
    · rintro ⟨hc, htest | ⟨gap, rest, -, hgap, rfl, htest⟩⟩
      · exact ⟨[c], s, List.cons_ne_nil c [], by simpa [AllBlank] using hc, rfl, htest⟩
      · exact ⟨c :: gap, rest, List.cons_ne_nil c gap, by simpa [AllBlank, hc] using hgap, rfl, htest⟩
    · rintro ⟨gap, rest, hne, hgap, heq, htest⟩
      obtain ⟨d, gap, rfl⟩ := List.exists_cons_of_ne_nil hne
      obtain ⟨rfl, rfl⟩ := List.cons.inj heq
      obtain ⟨hc, hgap⟩ := Bool.and_eq_true_iff.mp hgap
      refine ⟨hc, ?_⟩
      by_cases hlast : gap = []
      · subst hlast
        exact .inl htest
      · exact .inr ⟨gap, rest, hlast, hgap, rfl, htest⟩

theorem endsSectionHere_iff : endsSectionHere kind s = true ↔ Starts (endPattern kind) s := by
  have hsection : ∀ t, ((skipSomeBlanks? t).bind (after? "section")).isSome = true ↔
      Starts (.blanks :: literal "section".toList) t := by
    intro t
    have hword : IsWord "section".toList := by decide
    simp only [Option.isSome_iff_exists, someBlanks_after?_eq_some_iff hword, Starts,
      starts_literal_iff]
    constructor
    · rintro ⟨rest, gap, hne, hgap, rfl⟩
      exact ⟨gap, _, hne, hgap, rfl, List.prefix_append _ rest⟩
    · rintro ⟨gap, _, hne, hgap, rfl, rest, rfl⟩
      exact ⟨rest, gap, hne, hgap, rfl⟩
  unfold endsSectionHere
  rw [endPattern, starts_literal_append_iff]
  constructor
  · intro h
    split at h
    · cases h
    · next rest hend =>
      obtain ⟨gap, t, hne, hgap, rfl, htest⟩ := afterBlanks_iff.mp h
      split at htest
      · cases htest
      · next u hkind =>
        refine ⟨gap ++ t, after?_eq_some_iff.mp hend, gap, t, hne, hgap, rfl, ?_⟩
        rw [starts_literal_append_iff]
        exact ⟨u, after?_eq_some_iff.mp hkind, (hsection u).mp htest⟩
  · rintro ⟨_, rfl, gap, _, hne, hgap, rfl, h⟩
    obtain ⟨u, rfl, hu⟩ := starts_literal_append_iff.mp h
    rw [after?_eq_some_iff.mpr rfl]
    refine afterBlanks_iff.mpr ⟨gap, kind.toList ++ u, hne, hgap, rfl, ?_⟩
    rw [after?_eq_some_iff.mpr rfl]
    exact (hsection u).mpr hu

theorem closedBy_section_iff :
    (Opening.section kind).closedBy line = true ↔ Holds (endPattern kind) line := by
  simp only [Opening.closedBy, anywhere_iff, endsSectionHere_iff, Holds]

end Patterns

theorem sectionKind?_append {kind : String} (hk : IsWord kind.toList) (rest : List Char) :
    sectionKind? ("Begin ".toList ++ (kind.toList ++ (" section".toList ++ rest))) = some kind := by
  have hgap : skipSomeBlanks? (' ' :: (kind.toList ++ (" section".toList ++ rest))) =
      some (kind.toList ++ (" section".toList ++ rest)) :=
    congrArg some (skipBlanks_of_head? (isBlank_head?_of_isWord hk (" section".toList ++ rest)))
  have hspan : (kind.toList ++ (" section".toList ++ rest)).span (!isBlank ·) =
      (kind.toList, " section".toList ++ rest) := by
    apply span_word_append hk.2
    rintro c ⟨rfl⟩
    rfl
  have hbegin : after? "Begin" ("Begin ".toList ++ (kind.toList ++ (" section".toList ++ rest))) =
      some (' ' :: (kind.toList ++ (" section".toList ++ rest))) := rfl
  have hblanks : skipSomeBlanks? (" section".toList ++ rest) = some ("section".toList ++ rest) := rfl
  have hsection : after? "section" ("section".toList ++ rest) = some rest :=
    after?_eq_some_iff.mpr rfl
  unfold sectionKind?
  simp only [hbegin, hgap, hspan, hblanks, hsection, Option.bind_eq_bind, Option.bind_some,
    String.ofList_toList]

theorem opening?_beginMarker {kind : String} (hk : IsWord kind.toList) :
    opening? (beginMarker kind) = some (.section kind) := by
  have harray : arrayOpening? (beginMarker kind) = none := rfl
  have hsearch : firstMatch sectionKind? (beginMarker kind) =
      (sectionKind? ("Begin ".toList ++ (kind.toList ++ " section */".toList))).or
        (firstMatch sectionKind? ("egin ".toList ++ (kind.toList ++ " section */".toList))) := rfl
  have hfirst : sectionKind? ("Begin ".toList ++ (kind.toList ++ " section */".toList)) =
      some kind := sectionKind?_append hk " */".toList
  rw [opening?, sectionOpening?, harray, hsearch, hfirst]
  rfl

section Ends
variable {kind other : String} {c d : Char} {word rest : List Char}

/-- A section of this kind ends in front of a blank at the end of a word, or after it. -/
theorem holds_endPattern_iff (hw : word.all (!isBlank ·)) (hc : isBlank c = true) :
    Holds (endPattern kind) (word ++ c :: rest) ↔
      "End".toList <:+ word ∧
          Starts (.blanks :: (literal kind.toList ++ .blanks :: literal "section".toList)) (c :: rest) ∨
        Holds (endPattern kind) rest :=
  holds_word_iff (by decide) hw hc rest

theorem starts_kind_iff (hk : IsWord kind.toList) (hw : IsWord word) (hc : isBlank c = true)
    (hd : isBlank d = true) :
    Starts (.blanks :: (literal kind.toList ++ .blanks :: literal "section".toList))
        (c :: (word ++ d :: rest)) ↔
      kind.toList = word ∧ Starts (.blanks :: literal "section".toList) (d :: rest) := by
  rw [starts_blanks_iff hk hw hc, starts_word_iff hk.2 hw.2 hd]

theorem isBlank_space : isBlank ' ' = true := by decide

/-- The words of a marker after its kind are no end of a section, also where the kind ends in `End`. -/
theorem not_holds_after_end (hk : IsWord kind.toList) (ho : IsWord other.toList) :
    ¬ Holds (endPattern other) (kind.toList ++ ' ' :: ("section".toList ++ ' ' :: "*/".toList)) := by
  have hsection : IsWord "section".toList := by decide
  have hword : ¬ "End".toList <:+ "section".toList := by decide
  have hclose : ¬ Holds (endPattern other) "*/".toList := by
    intro h
    exact absurd (isInfix_of_holds h) (by decide)
  have hother : ¬ Starts (.blanks :: literal "section".toList) (' ' :: "*/".toList) := by
    have hstart : Starts (.blanks :: (literal "section".toList ++ [])) (' ' :: ("*/".toList ++ [])) ↔
        Starts (literal "section".toList ++ []) ("*/".toList ++ []) :=
      starts_blanks_iff hsection (by decide) isBlank_space []
    rw [List.append_nil, List.append_nil, starts_literal_iff] at hstart
    rw [hstart]
    decide
  rw [holds_endPattern_iff hk.2 isBlank_space,
    starts_kind_iff ho hsection isBlank_space isBlank_space,
    holds_endPattern_iff hsection.2 isBlank_space]
  rintro (⟨-, -, hlater⟩ | ⟨hlater, -⟩ | hlater)
  · exact hother hlater
  · exact hword hlater
  · exact hclose hlater

theorem holds_endMarker_iff (hk : IsWord kind.toList) (ho : IsWord other.toList) :
    Holds (endPattern other) (endMarker kind) ↔ kind = other := by
  have hwords : endMarker kind = "/*".toList ++ ' ' :: ("End".toList ++ ' ' ::
      (kind.toList ++ ' ' :: ("section".toList ++ ' ' :: "*/".toList))) := rfl
  have hopen : ¬ "End".toList <:+ "/*".toList := by decide
  have hsection : Starts (.blanks :: literal "section".toList)
      (' ' :: ("section".toList ++ ' ' :: "*/".toList)) := by
    refine ⟨[' '], "section".toList ++ ' ' :: "*/".toList, List.cons_ne_nil _ _, rfl, rfl, ?_⟩
    exact starts_literal_iff.mpr (List.prefix_append _ _)
  have hfirst : "/*".toList.all (!isBlank ·) = true := by decide
  have hsecond : "End".toList.all (!isBlank ·) = true := by decide
  rw [hwords, holds_endPattern_iff hfirst isBlank_space,
    holds_endPattern_iff hsecond isBlank_space, starts_kind_iff ho hk isBlank_space isBlank_space]
  constructor
  · rintro (⟨hslash, -⟩ | ⟨-, hsame, -⟩ | hafter)
    · exact absurd hslash hopen
    · exact (String.toList_inj.mp hsame).symm
    · exact absurd hafter (not_holds_after_end hk ho)
  · rintro rfl
    exact .inr (.inl ⟨List.suffix_refl _, rfl, hsection⟩)

end Ends

/-- The kinds of sections are told apart by their markers, whatever characters they are made of. The
marker that begins a section is read as that of its kind. A line is taken for the end of a section
exactly if it holds the pattern for it, in which the kind stands escaped, and of the end markers that
is the one of the same kind. So no section of a document is closed by the marker of another. -/
theorem section_markers_pair {kind other : String} (hk : IsWord kind.toList)
    (ho : IsWord other.toList) :
    opening? (beginMarker kind) = some (.section kind) ∧
    ((Opening.section other).closedBy (endMarker kind) = true ↔ kind = other) ∧
    (∃ pattern, readPattern? (endPatternText other) = some pattern ∧
      ∀ line, (Opening.section other).closedBy line = true ↔ Holds pattern line) ∧
    ∀ lines head body,
      .region (.section kind) head body (endMarker other) ∈ segments opening? lines →
        kind = other := by
  refine ⟨opening?_beginMarker hk, ?_, ⟨endPattern other, readPattern?_endPatternText other, ?_⟩, ?_⟩
  · rw [closedBy_section_iff, holds_endMarker_iff hk ho]
  · intro line
    exact closedBy_section_iff
  · intro lines head body hregion
    obtain ⟨-, -, hclosed⟩ := isCut_of_mem_segments _ hregion
    rw [closedBy_section_iff, holds_endMarker_iff ho hk] at hclosed
    exact hclosed.symm

/-- A kind that reads like a pattern for others and like the start of an end marker: its section goes on
past the end of another and is closed by its own. -/
theorem section_markers_pair_of_special_characters :
    IsWord "PBX.*End".toList ∧ IsWord "PBXWeekEnd".toList ∧
    opening? (beginMarker "PBX.*End") = some (.section "PBX.*End") ∧
    (Opening.section "PBX.*End").closedBy (endMarker "PBXWeekEnd") = false ∧
    (Opening.section "PBX.*End").closedBy (endMarker "PBX.*End") = true ∧
    segments opening?
        [beginMarker "PBX.*End", endMarker "PBXWeekEnd", endMarker "PBX.*End"] =
      [.region (.section "PBX.*End") (beginMarker "PBX.*End") [endMarker "PBXWeekEnd"]
        (endMarker "PBX.*End")] := by
  have hk : IsWord "PBX.*End".toList := by decide
  have ho : IsWord "PBXWeekEnd".toList := by decide
  obtain ⟨hopens, hown, -, -⟩ := section_markers_pair hk hk
  obtain ⟨-, hother, -, -⟩ := section_markers_pair ho hk
  have hcloses := hown.mpr rfl
  have hpasses := Bool.eq_false_iff.mpr (mt hother.mp (by decide))
  have hcut : Segment.IsCut opening? (.region (.section "PBX.*End") (beginMarker "PBX.*End")
      [endMarker "PBXWeekEnd"] (endMarker "PBX.*End")) :=
    ⟨hopens, by simpa using hpasses, hcloses⟩
  have hsegments := segments_region hcut []
  rw [segments_nil] at hsegments
  exact ⟨hk, ho, hopens, hpasses, hcloses, hsegments⟩

end ProjectOrder.Document
