import ProjectOrder.Proofs.SortedText

/-! Sorting works in place: each segment of a text is replaced where it stands. -/
namespace ProjectOrder
open ProjectOrder.Document

/-- The options with other sections that are sortable. -/
abbrev Options.withSections (options : Options) (sections : List String)
    (h : linkOrderedSection ∉ sections) : Options :=
  { options with sortableSections := sections, keepsLinkOrder := h }

end ProjectOrder

namespace ProjectOrder.Document
open ProjectOrder.Text

/-- What becomes of a segment. A section is replaced only if it is sortable, and then by its records
in their order and the lines after the last of them. -/
inductive Segment.Becomes (options : Options) : Segment → Segment → Prop
  | plain (line : Line) : Becomes options (.plain line) (.plain line)
  | array (key : ArrayKey) (indent : List Char) (head : Line) (entries : List Line)
      (closing : Line) :
    Becomes options (.region (.array key indent) head entries closing)
      (.region (.array key indent) head (key.arrange options.rules entries).entries closing)
  | copied {kind : String} (head : Line) (body : List Line) (closing : Line) :
    kind ∉ options.sortableSections →
      Becomes options (.region (.section kind) head body closing)
        (.region (.section kind) head body closing)
  | sorted {kind : String} (head : Line) {body : List Line} (closing : Line) {split : RecordSplit} :
    kind ∈ options.sortableSections → kind ≠ linkOrderedSection →
      IsRecordSplit options.maxRecordLines body split →
        Becomes options (.region (.section kind) head body closing)
          (.region (.section kind) head
            ((recordArrangement options.rules split.records).entries.flatten ++ split.trailing)
            closing)

section Joined
variable {options : Options} {text : List Char} {outcome : Outcome}

theorem becomes_mapBody (h : sortText options text = .ok outcome) {s : Segment}
    (hs : s ∈ segments opening? (lines text)) :
    s.Becomes options (s.mapBody (sortedInside options)) := by
  rcases s with line | ⟨⟨key, indent⟩ | kind, head, body, closing⟩ | ⟨opening, head, body⟩
  · exact .plain line
  · exact .array key indent head body closing
  · by_cases hk : kind ∈ options.sortableSections
    · obtain ⟨split, hsplit, -⟩ := exists_isRecordSplit_of_sortText h hs hk
      rw [Segment.mapBody, sortedInside_of_isRecordSplit hk hsplit]
      exact .sorted head closing hk (fun he => options.keepsLinkOrder (he ▸ hk)) hsplit
    · have hbody : sortedInside options (.section kind) body = body := by simp [sortedInside, hk]
      rw [Segment.mapBody, hbody]
      exact .copied head body closing hk
  · exact absurd (closes_of_sortText h _ hs) (by simp [Segment.isClosed])

end Joined

/-- Segments do not tell sets of sortable sections apart, unless they are a section that only one of
them has. -/
theorem mapBody_sortedInside_congr {options : Options} {sections : List String}
    (hlink : linkOrderedSection ∉ sections) {s : Segment}
    (hs : ∀ kind head body closing, s = .region (.section kind) head body closing →
      (kind ∈ options.sortableSections ↔ kind ∈ sections)) :
    s.mapBody (sortedInside (options.withSections sections hlink)) =
      s.mapBody (sortedInside options) := by
  rcases s with line | ⟨⟨key, indent⟩ | kind, head, body, closing⟩ | ⟨opening, head, body⟩
  · rfl
  · rfl
  · have := hs kind head body closing rfl
    simp [Segment.mapBody, sortedInside, Options.rules, this]
  · rfl

/-- A text has segments that no options decide, and sorting replaces each of them where it stands.
If other sections are sortable, all becomes the same but for the sections in one list only. -/
theorem sorted_in_place (text : List Char) :
    ∃ segs, IsSegmentation opening? (lines text) segs ∧
      (∀ options outcome, sortText options text = .ok outcome →
        (∀ s ∈ segs, s.isClosed) ∧
          ∃ sorted, List.Forall₂ (Segment.Becomes options) segs sorted ∧
            lines outcome.text = sorted.flatMap Segment.lines) ∧
      ∀ options sections outcome other (hlink : linkOrderedSection ∉ sections),
        sortText options text = .ok outcome →
        sortText (options.withSections sections hlink) text = .ok other →
        ∃ sorted resorted,
          List.Forall₂ (Segment.Becomes options) segs sorted ∧
            lines outcome.text = sorted.flatMap Segment.lines ∧
          List.Forall₂ (Segment.Becomes (options.withSections sections hlink)) segs resorted ∧
            lines other.text = resorted.flatMap Segment.lines ∧
          ∀ i : Nat, sorted[i]? ≠ resorted[i]? → ∃ kind head body closing,
            segs[i]? = some (.region (.section kind) head body closing) ∧
              ¬(kind ∈ options.sortableSections ↔ kind ∈ sections) := by
  have becomes : ∀ {options outcome}, sortText options text = .ok outcome →
      List.Forall₂ (Segment.Becomes options) (segments opening? (lines text))
        ((segments opening? (lines text)).map (Segment.mapBody (sortedInside options))) := by
    intro options outcome h
    rw [List.forall₂_map_right_iff, List.forall₂_same]
    exact fun s hs => becomes_mapBody h hs
  refine ⟨segments opening? (lines text), isSegmentation_segments _, ?_, ?_⟩
  · intro options outcome h
    exact ⟨closes_of_sortText h, _, becomes h, lines_of_sortText h⟩
  · intro options sections outcome other hlink h ho
    refine ⟨_, _, becomes h, lines_of_sortText h, becomes ho, lines_of_sortText ho, ?_⟩
    intro i hne
    simp only [List.getElem?_map] at hne
    cases hs : (segments opening? (lines text))[i]? with
    | none => simp [hs] at hne
    | some s =>
      rw [hs] at hne
      by_contra hall
      have hsame : s.mapBody (sortedInside (options.withSections sections hlink)) =
          s.mapBody (sortedInside options) := by
        apply mapBody_sortedInside_congr hlink
        intro kind head body closing he
        by_contra hk
        exact hall ⟨kind, head, body, closing, congrArg some he, hk⟩
      exact hne (congrArg some hsame.symm)

private theorem sortText_swappedRecords_copied :
    sortText (sampleOptions.withSections [] List.not_mem_nil) (unlines swappedRecords.lines) = .ok
      { text := unlines swappedRecords.lines
        changed := false
        tallies := [{ kind := .verbatim, name := "K", line := 1 }] } := by
  rw [sortText, sortLines, segments_swappedRecords]
  cbv

/-- The section is replaced where its kind is sortable, and copied where it is not. -/
theorem sorted_in_place_of_swapped_records :
    ∃ segs sorted copied,
      List.Forall₂ (Segment.Becomes sampleOptions) segs sorted ∧
      unlines (sorted.flatMap Segment.lines) =
        unlines (swappedRecords.mapBody fun _ => List.reverse).lines ∧
      List.Forall₂ (Segment.Becomes (sampleOptions.withSections [] List.not_mem_nil)) segs copied ∧
      unlines (copied.flatMap Segment.lines) = unlines swappedRecords.lines := by
  obtain ⟨segs, -, -, hagree⟩ := sorted_in_place (unlines swappedRecords.lines)
  obtain ⟨sorted, copied, hs, hsl, hc, hcl, -⟩ := hagree _ [] _ _ List.not_mem_nil
    sortText_swappedRecords sortText_swappedRecords_copied
  refine ⟨segs, sorted, copied, hs, ?_, hc, ?_⟩
  · exact (congrArg unlines hsl).symm.trans (joinWith_splitAt _ _)
  · exact (congrArg unlines hcl).symm.trans (joinWith_splitAt _ _)

end ProjectOrder.Document
