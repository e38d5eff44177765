import Mathlib
import ProjectOrder.Proofs.Passage

/-! When a text can be sorted, and what its sorted lines are. -/
namespace ProjectOrder.Document
open ProjectOrder.Text

variable {options : Options} {text : List Char} {outcome : Outcome}

theorem sortText_eq_ok (h : sortText options text = .ok outcome) :
    ∃ passage, Joins (sortBody options) (segments opening? (lines text)) passage ∧
      outcome = { text := unlines passage.lines
                  changed := unlines passage.lines != text
                  tallies := passage.tallies } := by
  obtain ⟨passage, hp, h⟩ := bind_eq_ok h
  cases h
  exact ⟨passage, joins_of_sortSegments hp, rfl⟩

theorem closes_of_sortText (h : sortText options text = .ok outcome) :
    Closes opening? (lines text) := by
  obtain ⟨passage, hp, -⟩ := sortText_eq_ok h
  exact hp.isClosed

theorem lines_unlines {kept : List Line} (h : Conserves (lines text) kept) :
    lines (unlines kept) = kept := by
  apply splitAt_joinWith
  · obtain ⟨line, more, hl⟩ := List.exists_cons_of_ne_nil (splitAt_ne_nil '\n' text)
    exact List.ne_nil_of_mem (h.subset (hl ▸ List.mem_cons_self))
  · exact fun line hl => not_mem_of_mem_splitAt line (h.mem_iff.mp hl)

theorem Joins.lines_eq_rebuild {passage : Passage}
    (h : Joins (sortBody options) (segments opening? (lines text)) passage) :
    passage.lines = rebuild opening? (sortedInside options) (lines text) :=
  h.lines_eq fun hi => (sortBody_eq_ok hi).lines_eq

theorem Joins.lines_unlines_eq {passage : Passage}
    (h : Joins (sortBody options) (segments opening? (lines text)) passage) :
    lines (unlines passage.lines) = passage.lines := by
  have hc : Conserves (lines text) passage.lines := by
    rw [h.lines_eq_rebuild]
    exact conserves_rebuild (conserves_sortedInside options) _
  exact lines_unlines hc

/-- The lines of a sorted text are those of the text with another inside in each region. -/
theorem lines_of_sortText (h : sortText options text = .ok outcome) :
    lines outcome.text = rebuild opening? (sortedInside options) (lines text) := by
  obtain ⟨passage, hp, rfl⟩ := sortText_eq_ok h
  exact hp.lines_unlines_eq.trans hp.lines_eq_rebuild

theorem segments_of_sortText (h : sortText options text = .ok outcome) :
    segments opening? (lines outcome.text) =
      (segments opening? (lines text)).map (Segment.mapBody (sortedInside options)) := by
  rw [lines_of_sortText h]
  exact segments_rebuild (sortedInside_subset options) (closes_of_sortText h)

theorem changed_of_sortText (h : sortText options text = .ok outcome) :
    outcome.changed = true ↔ lines outcome.text ≠ lines text := by
  obtain ⟨passage, -, rfl⟩ := sortText_eq_ok h
  simp only [bne_iff_ne, ne_eq, not_iff_not]
  constructor
  · intro he
    rw [he]
  · intro he
    have ht := congrArg unlines he
    simpa only [unlines, lines, joinWith_splitAt] using ht

/-- A sortable section of a text that can be sorted is a sequence of records. -/
theorem exists_isRecordSplit_of_sortText (h : sortText options text = .ok outcome) {kind : String}
    {head closing : Line} {body : List Line}
    (hm : .region (.section kind) head body closing ∈ segments opening? (lines text))
    (hk : kind ∈ options.sortableSections) :
    ∃ split, IsRecordSplit options.maxRecordLines body split ∧
      ∀ r ∈ split.records, Closes arrayOpening? r.body := by
  obtain ⟨passage, hp, -⟩ := sortText_eq_ok h
  obtain ⟨line, inside, hi⟩ := hp.exists_inside hm
  cases sortBody_eq_ok hi with
  | copied hs => exact absurd hk hs
  | sorted _ hsection => exact ⟨_, hsection.isRecordSplit, hsection.closes⟩

theorem exists_sortText (hc : Closes opening? (lines text))
    (hs : ∀ kind head body closing,
      .region (.section kind) head body closing ∈ segments opening? (lines text) →
      kind ∈ options.sortableSections → ∃ split, IsRecordSplit options.maxRecordLines body split ∧
        ∀ r ∈ split.records, Closes arrayOpening? r.body) :
    ∃ outcome, sortText options text = .ok outcome := by
  have hb : ∀ opening head body closing,
      .region opening head body closing ∈ segments opening? (lines text) →
        ∀ line, ∃ inside, sortBody options opening line body = .ok inside := by
    intro opening head body closing hm line
    exact exists_sortBody (fun kind he hk => hs kind head body closing (he ▸ hm) hk) line
  obtain ⟨passage, hp⟩ := exists_sortSegments hc hb 1
  exact ⟨_, by rw [sortText, sortLines, hp]; rfl⟩

/-- Options under which the sections of one kind are sorted. -/
def sampleOptions : Options :=
  { ignoreCase := false, knownFiles := [], sortableSections := ["K"], maxRecordLines := 1
    keepsLinkOrder := by decide }

/-- A section of that kind, with two records that are not in order. -/
def swappedRecords : Segment :=
  .region (.section "K") "Begin K section".toList
    ["000000000000000000000000 /* b */ = \x7b\x7d".toList,
      "000000000000000000000001 /* a */ = \x7b\x7d".toList]
    "End K section".toList

theorem segments_swappedRecords :
    segments opening? (lines (unlines swappedRecords.lines)) = [swappedRecords] := by
  have hc : swappedRecords.IsCut opening? :=
    ⟨by decide +kernel, by decide +kernel, by decide +kernel⟩
  have hl : lines (unlines swappedRecords.lines) = swappedRecords.lines := by decide +kernel
  rw [hl]
  exact (segments_region hc []).trans (by rw [segments_nil]; rfl)

theorem sortText_swappedRecords :
    sortText sampleOptions (unlines swappedRecords.lines) = .ok
      { text := unlines (swappedRecords.mapBody fun _ => List.reverse).lines
        changed := true
        tallies := [
          { kind := .section, name := "K", line := 1, entries := 2, reordered := true }] } := by
  unfold sortText sortLines
  rw [segments_swappedRecords]
  cbv

end ProjectOrder.Document
