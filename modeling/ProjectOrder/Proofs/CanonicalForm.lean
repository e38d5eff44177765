import ProjectOrder.Proofs.Stability

/-! Sorting forgets the order that the entries of a region had, if their ranks tell them apart. -/
namespace ProjectOrder
open ProjectOrder.Name

/-- Arranging makes the same of items in whatever order they come, if the rank of an item is that of
its content, and no two contents have ranks that compare equal. -/
theorem map_arranged_of_perm [DecidableEq β] [Hashable β] {content : α → β} {rank : α → Rank}
    {items other : List α} (h : other.Perm items)
    (hrank : ∀ a ∈ items, ∀ b ∈ items, content a = content b → rank a = rank b)
    (happart : ∀ a ∈ items, ∀ b ∈ items, (rank a).compare (rank b) = .eq → content a = content b) :
    (arranged content rank other).map content = (arranged content rank items).map content := by
  obtain ⟨contentRank, hitems⟩ := exists_contentRank hrank
  have hother : ∀ a ∈ other, contentRank (content a) = rank a := fun a ha => hitems a (h.subset ha)
  have hperm : ((arranged content rank other).map content).Perm
      ((arranged content rank items).map content) := by
    rw [List.perm_ext_iff_of_nodup (nodup_map_arranged _ _ _) (nodup_map_arranged _ _ _)]
    intro b
    rw [mem_map_arranged, mem_map_arranged, (h.map content).mem_iff]
  have hpairs := pairwise_arranged id contentRank (other.map content)
  have hpairs' := pairwise_arranged id contentRank (items.map content)
  rw [arranged_map_content hother] at hpairs
  rw [arranged_map_content hitems] at hpairs'
  refine hperm.eq_of_pairwise ?_ hpairs hpairs'
  intro x y hx hy hxy hyx
  obtain ⟨a, ha, rfl⟩ := List.mem_map.mp ((mem_map_arranged _ _ _).mp hx)
  obtain ⟨b, hb, rfl⟩ := List.mem_map.mp ((mem_map_arranged _ _ _).mp hy)
  have heq := hxy.antisymm hyx
  rw [hother a ha, hitems b hb] at heq
  exact happart a (h.subset ha) b hb heq

end ProjectOrder

namespace ProjectOrder.Document
open ProjectOrder.Name ProjectOrder.Text

/-- The other segment is the same region with the entries of its array, or the records of its
sortable section, in another order. -/
inductive Segment.Reorders (options : Options) : Segment → Segment → Prop
  | array {key : ArrayKey} {indent : List Char} {head closing : Line} {entries other : List Line} :
    other.Perm entries →
      Reorders options (.region (.array key indent) head entries closing)
        (.region (.array key indent) head other closing)
  | records {kind : String} {head closing : Line} {body : List Line} {first : Int}
      {split : RecordSplit} {records : List Record} :
    kind ∈ options.sortableSections →
      splitRecords options.maxRecordLines first body = .ok split → records.Perm split.records →
        Reorders options (.region (.section kind) head body closing)
          (.region (.section kind) head (records.flatMap Record.lines ++ split.trailing) closing)

/-- Entries of the region that differ have ranks that differ, where the entries of a section are its
records with the arrays in them sorted. -/
def Segment.TellsApart (options : Options) : Segment → Prop
  | .region (.array key _) _ entries _ =>
    ∀ a ∈ entries, ∀ b ∈ entries, a ≠ b →
      (key.entryRank options.rules a).compare (key.entryRank options.rules b) ≠ .eq
  | .region (.section _) _ body _ =>
    ∀ first split, splitRecords options.maxRecordLines first body = .ok split →
      ∀ r ∈ split.records.map (Record.sorted options.rules),
        ∀ s ∈ split.records.map (Record.sorted options.rules), r.lines ≠ s.lines →
          (recordRank options.rules r).compare (recordRank options.rules s) ≠ .eq
  | _ => True

section Regions
variable {options : Options} {rules : Rules} {s other : Segment}

theorem entries_arrange_of_perm {key : ArrayKey} {entries other : List Line}
    (h : other.Perm entries)
    (happart : ∀ a ∈ entries, ∀ b ∈ entries, a ≠ b →
      (key.entryRank rules a).compare (key.entryRank rules b) ≠ .eq) :
    (key.arrange rules other).entries = (key.arrange rules entries).entries := by
  have he : (arranged id (key.entryRank rules) other).map id =
      (arranged id (key.entryRank rules) entries).map id := by
    apply map_arranged_of_perm h
    · intro a _ b _ he
      exact congrArg _ he
    · intro a ha b hb he
      by_contra hne
      exact happart a ha b hb hne he
  simpa only [entries_arrange, List.map_id] using he

theorem map_lines_arrangedRecords_of_perm {records other : List Record} (h : other.Perm records)
    (hs : ∀ r ∈ records, r.Starts)
    (happart : ∀ r ∈ records.map (Record.sorted rules), ∀ s ∈ records.map (Record.sorted rules),
      r.lines ≠ s.lines → (recordRank rules r).compare (recordRank rules s) ≠ .eq) :
    (arrangedRecords rules other).map Record.lines =
      (arrangedRecords rules records).map Record.lines := by
  have hstarts : ∀ r ∈ records.map (Record.sorted rules), r.Starts := by
    simpa using fun r hr => (hs r hr).sorted
  apply map_arranged_of_perm (h.map _)
  · intro r hr s hs he
    rw [recordRank, (hstarts r hr).body_eq (hstarts s hs) he, recordRank]
  · intro r hr s hs he
    by_contra hne
    exact happart r hr s hs hne he

namespace Segment.Reorders

theorem perm (h : s.Reorders options other) : other.lines.Perm s.lines := by
  cases h with
  | array hp => exact (hp.append_right _).cons _
  | records hk hs hp =>
    rw [← (isRecordSplit_of_splitRecords hs).lines_eq]
    exact (((hp.flatMap_right Record.lines).append_right _).append_right _).cons _

theorem isClosed (h : s.Reorders options other) : other.isClosed = true := by
  cases h <;> rfl

/-- A region is recognized by its first line and its end, wherever the other lines of it are. -/
theorem isCut (h : s.Reorders options other) (hs : s.IsCut opening?) : other.IsCut opening? := by
  have hperm := h.perm
  have cut : ∀ opening head body closing body', (body' : List Line).Perm body →
      Segment.IsCut opening? (.region opening head body closing) →
        Segment.IsCut opening? (.region opening head body' closing) := by
    intro opening head body closing body' hp hc
    obtain ⟨ho, hb, hc⟩ := hc
    exact ⟨ho, fun line hl => hb line (hp.subset hl), hc⟩
  cases h with
  | array hp => exact cut _ _ _ _ _ hp hs
  | records hk hr hp =>
    have hbody := (List.perm_append_right_iff _).mp ((List.perm_cons _).mp hperm)
    exact cut _ _ _ _ _ hbody hs

theorem mapBody_eq (h : s.Reorders options other) (ht : s.TellsApart options) :
    other.mapBody (sortedInside options) = s.mapBody (sortedInside options) := by
  cases h with
  | @array key indent head closing entries other hp =>
    have he := entries_arrange_of_perm hp ht
    exact congrArg (Segment.region (.array key indent) head · closing) he
  | @records kind head closing body first split records hk hs hp =>
    have hsplit := isRecordSplit_of_splitRecords hs
    have hlines := map_lines_arrangedRecords_of_perm hp
      (fun r hr => (hsplit.isWhole r hr).toStarts) (ht first split hs)
    have hsorted : (RecordSplit.mk records split.trailing).sortedLines options.rules =
        split.sortedLines options.rules := by
      simp only [sortedLines_eq, List.flatMap_def, hlines]
    rw [Segment.mapBody, Segment.mapBody, sortedInside_of_isRecordSplit hk hsplit,
      sortedInside_of_isRecordSplit hk (hsplit.of_perm hp), hsorted]

end Segment.Reorders

end Regions

section Texts
variable {options : Options} {text : List Char} {outcome : Outcome} {before after : List Segment}
  {s other : Segment}

/-- A text with a region in another order is cut into the same segments but for that region. -/
theorem segments_unlines_of_reorders (h : sortText options text = .ok outcome)
    (hsegs : segments opening? (lines text) = before ++ s :: after)
    (hr : s.Reorders options other) :
    segments opening? (lines (unlines ((before ++ other :: after).flatMap Segment.lines))) =
      before ++ other :: after := by
  have hl : lines text = (before ++ s :: after).flatMap Segment.lines := by
    rw [← hsegs, flatMap_lines_segments]
  have hperm : ((before ++ other :: after).flatMap Segment.lines).Perm (lines text) := by
    rw [hl]
    simp only [List.flatMap_append, List.flatMap_cons]
    exact ((hr.perm.append_right _).append_left _)
  rw [lines_unlines ⟨hperm.subperm, hperm.symm.subset⟩]
  have hcut : ∀ t ∈ before ++ s :: after, t.IsCut opening? := by
    rw [← hsegs]
    exact isCut_of_mem_segments
  have hclosed : ∀ t ∈ before ++ s :: after, t.isClosed := by
    rw [← hsegs]
    exact closes_of_sortText h
  apply segments_flatMap_lines
  · simp only [List.forall_mem_append, List.forall_mem_cons] at hcut ⊢
    exact ⟨hcut.1, hr.isCut hcut.2.1, hcut.2.2⟩
  · simp only [List.forall_mem_append, List.forall_mem_cons] at hclosed ⊢
    exact ⟨hclosed.1, hr.isClosed, hclosed.2.2⟩

theorem exists_sortText_of_reorders (h : sortText options text = .ok outcome)
    (hsegs : segments opening? (lines text) = before ++ s :: after)
    (hr : s.Reorders options other) :
    ∃ again, sortText options (unlines ((before ++ other :: after).flatMap Segment.lines)) =
      .ok again := by
  have hcut := segments_unlines_of_reorders h hsegs hr
  apply exists_sortText
  · have hclosed : ∀ t ∈ before ++ s :: after, t.isClosed := by
      rw [← hsegs]
      exact closes_of_sortText h
    rw [Closes, hcut]
    simp only [List.forall_mem_append, List.forall_mem_cons] at hclosed ⊢
    exact ⟨hclosed.1, hr.isClosed, hclosed.2.2⟩
  · intro kind head body closing hm hk
    have same : ∀ t, t ∈ before ∨ t ∈ after → t ∈ segments opening? (lines text) := by
      intro t ht
      rw [hsegs]
      rcases ht with ht | ht <;> simp [ht]
    rw [hcut, List.mem_append, List.mem_cons] at hm
    rcases hm with hm | rfl | hm
    · exact exists_isRecordSplit_of_sortText h (same _ (.inl hm)) hk
    · cases hr with
      | @records _ _ _ original _ split records _ hs hp =>
        have hmem : .region (.section kind) head original closing ∈
            segments opening? (lines text) := by
          rw [hsegs]
          exact List.mem_append_right _ List.mem_cons_self
        obtain ⟨split, hsplit, hclosed⟩ := exists_isRecordSplit_of_sortText h hmem hk
        obtain rfl := hsplit.unique (isRecordSplit_of_splitRecords hs)
        exact ⟨_, hsplit.of_perm hp, fun r hr => hclosed r (hp.subset hr)⟩
    · exact exists_isRecordSplit_of_sortText h (same _ (.inr hm)) hk

/-- A text that can be sorted can be sorted with the entries of a region in any order, and becomes
the same, if ranks tell apart all of the entries that differ. -/
theorem sorted_text_canonical (h : sortText options text = .ok outcome)
    (hsegs : segments opening? (lines text) = before ++ s :: after)
    (hr : s.Reorders options other) (ht : s.TellsApart options) :
    ∃ again, sortText options (unlines ((before ++ other :: after).flatMap Segment.lines)) =
      .ok again ∧ again.text = outcome.text := by
  obtain ⟨again, ha⟩ := exists_sortText_of_reorders h hsegs hr
  have hlines : lines again.text = lines outcome.text := by
    rw [lines_of_sortText ha, lines_of_sortText h, rebuild, rebuild, hsegs,
      segments_unlines_of_reorders h hsegs hr]
    simp only [List.map_append, List.map_cons, hr.mapBody_eq ht]
  refine ⟨again, ha, ?_⟩
  have htext := congrArg unlines hlines
  simpa only [unlines, lines, joinWith_splitAt] using htext

end Texts

/-- The records of the sample section, which are a line each. -/
def sampleRecords : List Record :=
  [⟨[], ["000000000000000000000000 /* b */ = \x7b\x7d".toList]⟩,
    ⟨[], ["000000000000000000000001 /* a */ = \x7b\x7d".toList]⟩]

private theorem splitRecords_swappedRecords :
    splitRecords 1 0 ["000000000000000000000000 /* b */ = \x7b\x7d".toList,
      "000000000000000000000001 /* a */ = \x7b\x7d".toList] = .ok ⟨sampleRecords, []⟩ := by
  cbv

private theorem tellsApart_swappedRecords : swappedRecords.TellsApart sampleOptions := by
  intro first split hs
  obtain rfl := (isRecordSplit_of_splitRecords hs).unique
    (isRecordSplit_of_splitRecords splitRecords_swappedRecords)
  have hsorted : sampleRecords.map (Record.sorted sampleOptions.rules) = sampleRecords := by cbv
  have happart : sampleRecords.all (fun r => sampleRecords.all fun s => r.lines == s.lines ||
      (recordRank sampleOptions.rules r).compare (recordRank sampleOptions.rules s) != .eq) := by
    cbv
  rw [hsorted]
  intro r hr s hs hne he
  have h := List.all_eq_true.mp (List.all_eq_true.mp happart r hr) s hs
  simp [hne, he] at h

/-- Two records whose names differ become the same in both of their orders. -/
theorem sorted_text_canonical_of_swapped_records :
    swappedRecords.TellsApart sampleOptions ∧
    ∃ outcome again, sortText sampleOptions (unlines swappedRecords.lines) = .ok outcome ∧
      sortText sampleOptions (unlines (swappedRecords.mapBody fun _ => List.reverse).lines) =
        .ok again ∧
      again.text = outcome.text := by
  have hreorders : swappedRecords.Reorders sampleOptions
      (.region (.section "K") "Begin K section".toList
        (sampleRecords.reverse.flatMap Record.lines ++ []) "End K section".toList) :=
    @Segment.Reorders.records sampleOptions "K" _ _ _ 0 ⟨sampleRecords, []⟩ sampleRecords.reverse
      List.mem_cons_self splitRecords_swappedRecords sampleRecords.reverse_perm
  have hsegs : segments opening? (lines (unlines swappedRecords.lines)) =
      [] ++ swappedRecords :: [] := segments_swappedRecords
  obtain ⟨again, ha, ht⟩ := sorted_text_canonical sortText_swappedRecords hsegs hreorders
    tellsApart_swappedRecords
  exact ⟨tellsApart_swappedRecords, _, again, sortText_swappedRecords, ha, ht⟩

end ProjectOrder.Document
