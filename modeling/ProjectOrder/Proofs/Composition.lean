import ProjectOrder.Proofs.Numbering
import ProjectOrder.Proofs.Reports

/-! Texts one after the other are sorted one after the other. -/
namespace ProjectOrder.Document
open ProjectOrder.Text

/-- What becomes of a text with another after it, where the one has so many lines. -/
def Outcome.followedBy (a : Outcome) (n : Int) (b : Outcome) : Outcome :=
  { text := a.text ++ '\n' :: b.text
    changed := a.changed || b.changed
    tallies := a.tallies ++ b.tallies.map (Tally.shift n) }

section Texts
variable {options : Options} {a b : List Char}

/-- Regions that are all closed by the end of the lines have no part in what follows. -/
theorem sortLines_append {start rest : List Line} {passage : Passage}
    (h : sortLines options start = .ok passage) :
    sortLines options (start ++ rest) =
      (shifted start.length (sortLines options rest)).map passage.append := by
  have hc : Closes opening? start := (joins_of_sortSegments h).isClosed
  have hs : sortSegments (sortBody options) 1 (segments opening? start) = .ok passage := h
  rw [sortLines, segments_append hc, sortSegments_append, hs, flatMap_lines_segments,
    sortSegments_shift sortBody_shift, ← sortLines]
  rcases sortLines options rest with fault | more <;> rfl

theorem lines_ne_nil_of_sortLines {passage : Passage}
    (h : sortLines options (lines a) = .ok passage) :
    passage.lines ≠ [] := by
  have hl : lines (unlines passage.lines) = passage.lines :=
    (joins_of_sortSegments h).lines_unlines_eq
  rw [← hl]
  exact splitAt_ne_nil '\n' _

theorem sortText_of_sortLines {passage : Passage} (h : sortLines options (lines a) = .ok passage) :
    sortText options a = .ok
      { text := unlines passage.lines
        changed := unlines passage.lines != a
        tallies := passage.tallies } := by
  rw [sortText, h]
  rfl

/-- Changes to the one text and changes to the other are changes to both of them together. -/
theorem changed_append {first second whole : Outcome} (ha : sortText options a = .ok first)
    (hb : sortText options b = .ok second) (h : sortText options (a ++ '\n' :: b) = .ok whole)
    {n : Int} (ht : whole.tallies = first.tallies ++ second.tallies.map (Tally.shift n)) :
    whole.changed = (first.changed || second.changed) := by
  have hwhole := changed_eq_false_iff h
  rw [ht, List.forall_mem_append, List.forall_mem_map] at hwhole
  simp only [isChange_shift, ← changed_eq_false_iff ha, ← changed_eq_false_iff hb] at hwhole
  rw [Bool.eq_iff_iff, ← Bool.not_eq_false, ← Bool.not_eq_false, Bool.or_eq_false_iff, not_iff_not]
  exact hwhole

theorem sortText_append_of_ok {first second : Outcome} (ha : sortText options a = .ok first)
    (hb : sortText options b = .ok second) :
    sortText options (a ++ '\n' :: b) = .ok (first.followedBy (lines a).length second) := by
  obtain ⟨passage, hp, he⟩ := bind_eq_ok ha
  obtain ⟨more, hm, hf⟩ := bind_eq_ok hb
  cases he
  cases hf
  have hlines : sortLines options (lines (a ++ '\n' :: b)) =
      .ok (passage.append (more.shift (lines a).length)) := by
    rw [lines, splitAt_append_sep, sortLines_append hp, hm]
    rfl
  have hwhole := sortText_of_sortLines hlines
  have hchanged := changed_append ha hb hwhole rfl
  have hne : passage.lines ≠ [] := lines_ne_nil_of_sortLines hp
  have hmore : more.lines ≠ [] := lines_ne_nil_of_sortLines hm
  have htext : unlines (passage.append (more.shift (lines a).length)).lines =
      unlines passage.lines ++ '\n' :: unlines more.lines := joinWith_append hne hmore
  rw [hwhole, Except.ok.injEq, Outcome.followedBy, Outcome.mk.injEq]
  exact ⟨htext, hchanged, rfl⟩

theorem sortText_append_of_error {first : Outcome} {fault : Fault}
    (ha : sortText options a = .ok first) (hb : sortText options b = .error fault) :
    sortText options (a ++ '\n' :: b) = .error (fault.shift (lines a).length) := by
  obtain ⟨passage, hp, -⟩ := bind_eq_ok ha
  have hm : sortLines options (lines b) = .error fault := by
    rw [sortText] at hb
    rcases hm : sortLines options (lines b) with e | more
    · rw [hm] at hb
      cases hb
      rfl
    · rw [hm] at hb
      cases hb
  rw [sortText, lines, splitAt_append_sep, sortLines_append hp, hm]
  rfl

/-- A text with another after it can be sorted exactly if the other can, as long as the first can.
What becomes of them is what becomes of each, and the numbers of the second count on from the lines of
the first, those of its faults too. -/
theorem sortText_append_newline {first : Outcome} (h : sortText options a = .ok first)
    (b : List Char) :
    ((∃ whole, sortText options (a ++ '\n' :: b) = .ok whole) ↔
      ∃ second, sortText options b = .ok second) ∧
    (∀ second, sortText options b = .ok second → sortText options (a ++ '\n' :: b) = .ok
      { text := first.text ++ '\n' :: second.text
        changed := first.changed || second.changed
        tallies := first.tallies ++ second.tallies.map fun tally =>
          { tally with line := tally.line + (lines a).length } }) ∧
    (∀ opening line, sortText options b = .error (.unterminated opening line) →
      sortText options (a ++ '\n' :: b) =
        .error (.unterminated opening (line + (lines a).length))) ∧
    ∀ kind line, sortText options b = .error (.unbalanced kind line) →
      sortText options (a ++ '\n' :: b) = .error (.unbalanced kind (line + (lines a).length)) := by
  refine ⟨?_, fun second hb => sortText_append_of_ok h hb,
    fun opening line hb => sortText_append_of_error h hb,
    fun kind line hb => sortText_append_of_error h hb⟩
  constructor
  · intro hwhole
    obtain ⟨whole, hwhole⟩ := hwhole
    rcases hb : sortText options b with fault | second
    · rw [sortText_append_of_error h hb] at hwhole
      cases hwhole
    · exact ⟨second, rfl⟩
  · intro hsecond
    obtain ⟨second, hb⟩ := hsecond
    exact ⟨_, sortText_append_of_ok h hb⟩

end Texts

/-- An array that nothing closes. -/
def openArray : Line :=
  "files = (".toList

theorem sortText_openArray :
    sortText sampleOptions openArray = .error (.unterminated (.array .files []) 1) := by
  have hcut : Segment.IsCut opening? (.unclosed (.array .files []) openArray []) :=
    ⟨by decide +kernel, by simp⟩
  have hlines : lines openArray = [openArray] := by decide +kernel
  rw [sortText, sortLines, hlines, segments_unclosed hcut]
  rfl

/-- After records that change places come the same records again, or an array that nothing closes. -/
theorem sortText_append_newline_of_swapped_records :
    (∃ first, sortText sampleOptions (unlines swappedRecords.lines) = .ok first) ∧
    (∃ whole, sortText sampleOptions
        (unlines swappedRecords.lines ++ '\n' :: unlines swappedRecords.lines) = .ok whole ∧
      whole.changed = true ∧ whole.tallies = [
        { kind := .section, name := "K", line := 1, entries := 2, reordered := true },
        { kind := .section, name := "K", line := 5, entries := 2, reordered := true }]) ∧
    sortText sampleOptions (unlines swappedRecords.lines ++ '\n' :: openArray) =
      .error (.unterminated (.array .files []) 5) := by
  have hlength : (lines (unlines swappedRecords.lines)).length = 4 := by decide +kernel
  obtain ⟨-, hok, -, -⟩ :=
    sortText_append_newline sortText_swappedRecords (unlines swappedRecords.lines)
  obtain ⟨-, -, hunterminated, -⟩ := sortText_append_newline sortText_swappedRecords openArray
  refine ⟨⟨_, sortText_swappedRecords⟩, ⟨_, hok _ sortText_swappedRecords, rfl, ?_⟩, ?_⟩
  · rw [hlength]
    rfl
  · rw [hunterminated _ _ sortText_openArray, hlength]
    rfl

end ProjectOrder.Document
