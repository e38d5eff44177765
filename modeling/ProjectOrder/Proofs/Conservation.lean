import ProjectOrder.Proofs.SortedText

/-! No line is lost or made up by sorting, and none is left out where nothing is repeated. -/
namespace ProjectOrder.Document
open ProjectOrder.Name ProjectOrder.Text

/-- None of the tallies counts a repetition. -/
def Passage.Repeatless (passage : Passage) : Prop :=
  ∀ tally ∈ passage.tallies, tally.duplicates = 0

theorem Joins.perm {sortBody : Opening → Int → List Line → Except Fault Passage}
    {segs : List Segment} {passage : Passage} (h : Joins sortBody segs passage)
    (hb : ∀ {opening line body inside}, sortBody opening line body = .ok inside →
      inside.Repeatless → inside.lines.Perm body)
    (hd : passage.Repeatless) : passage.lines.Perm (segs.flatMap Segment.lines) := by
  induction h with
  | nil => exact .refl _
  | plain line _ ih => exact (ih hd).cons line
  | region opening head closing hi _ ih =>
    have hinside := hb hi fun t ht => hd t (List.mem_append_left _ ht)
    have hafter := ih fun t ht => hd t (List.mem_append_right _ ht)
    simpa [Segment.lines] using (hinside.append (hafter.cons closing)).cons head

section Regions
variable {rules : Rules} {options : Options}

theorem perm_of_sortArray {key : ArrayKey} {line : Int} {entries : List Line}
    (hd : (sortArray rules key line entries).Repeatless) :
    (sortArray rules key line entries).lines.Perm entries := by
  have hd : (key.arrange rules entries).duplicates = 0 := hd _ (List.mem_singleton_self _)
  have hp := arranged_perm_of_duplicates_eq_zero id (key.entryRank rules) entries hd
  simpa [sortArray, entries_arrange] using hp

theorem perm_of_sortArrayBody {opening : Opening} {line : Int} {body : List Line}
    {inside : Passage} (h : sortArrayBody rules opening line body = .ok inside)
    (hd : inside.Repeatless) : inside.lines.Perm body := by
  cases opening with
  | array key indent =>
    cases h
    exact perm_of_sortArray hd
  | «section» kind =>
    cases h
    exact .refl _

theorem SortsArrays.perm {r : Record} {inside : Passage} (h : SortsArrays rules r inside)
    (hd : inside.Repeatless) : (r.sorted rules).lines.Perm r.lines := by
  have hp := Joins.perm h perm_of_sortArrayBody hd
  rw [flatMap_lines_segments] at hp
  rw [← h.sorted_eq]
  exact hp.append_left r.leading

theorem perm_of_sortsArrays {records : List Record} {insides : List Passage}
    (h : List.Forall₂ (SortsArrays rules) records insides)
    (hd : ∀ inside ∈ insides, inside.Repeatless) :
    ((records.map (Record.sorted rules)).flatMap Record.lines).Perm
      (records.flatMap Record.lines) := by
  induction h with
  | nil => exact .refl _
  | cons hr _ ih =>
    have hr := hr.perm (hd _ (by simp))
    have ih := ih fun inside hi => hd inside (by simp [hi])
    simpa using hr.append ih

theorem SortsSection.perm {kind : String} {line : Int} {body : List Line} {split : RecordSplit}
    {insides : List Passage} {passage : Passage}
    (h : SortsSection options kind line body split insides passage) (hd : passage.Repeatless) :
    passage.lines.Perm body := by
  obtain ⟨hs, hj, hl, ht⟩ := h
  have hinsides : ∀ inside ∈ insides, inside.Repeatless := by
    intro inside hi tally ht'
    exact hd tally (ht ▸ List.mem_append_left _ (List.mem_flatMap.mpr ⟨inside, hi, ht'⟩))
  have hkept : (recordArrangement options.rules split.records).duplicates = 0 :=
    hd _ (ht ▸ List.mem_append_right _ (List.mem_singleton_self _))
  have harranged := arranged_perm_of_duplicates_eq_zero _ _ _ hkept
  rw [hl, sortedLines_eq, ← hs.lines_eq]
  exact ((harranged.flatMap_right Record.lines).trans
    (perm_of_sortsArrays hj hinsides)).append_right split.trailing

theorem perm_of_sortBody {opening : Opening} {line : Int} {body : List Line} {inside : Passage}
    (h : sortBody options opening line body = .ok inside) (hd : inside.Repeatless) :
    inside.lines.Perm body := by
  cases sortBody_eq_ok h with
  | array key indent => exact perm_of_sortArray hd
  | copied _ => exact .refl _
  | sorted _ hsection => exact hsection.perm hd

end Regions

variable {options : Options} {text : List Char} {outcome : Outcome}

/-- A sorted text has the lines of the text and no others, none of them more often, and all of them
as often if no region repeats an entry or a record. -/
theorem lines_conserved (h : sortText options text = .ok outcome) :
    (∀ line, line ∈ lines outcome.text ↔ line ∈ lines text) ∧
      (∀ line, (lines outcome.text).count line ≤ (lines text).count line) ∧
      ((∀ tally ∈ outcome.tallies, tally.duplicates = 0) →
        (lines outcome.text).Perm (lines text)) := by
  have hc : Conserves (lines text) (lines outcome.text) := by
    rw [lines_of_sortText h]
    exact conserves_rebuild (conserves_sortedInside options) _
  refine ⟨fun line => hc.mem_iff, hc.subperm.count_le, fun hd => ?_⟩
  obtain ⟨passage, hp, rfl⟩ := sortText_eq_ok h
  have hperm := hp.perm perm_of_sortBody hd
  rw [flatMap_lines_segments] at hperm
  simpa [hp.lines_unlines_eq] using hperm

/-- The lines of two records change places, and are all there. -/
theorem lines_conserved_of_swapped_records :
    ∃ outcome, sortText sampleOptions (unlines swappedRecords.lines) = .ok outcome ∧
      outcome.changed = true ∧
      (lines outcome.text).Perm (lines (unlines swappedRecords.lines)) := by
  have hs := sortText_swappedRecords
  exact ⟨_, hs, rfl, (lines_conserved hs).2.2 (by simp)⟩

end ProjectOrder.Document
