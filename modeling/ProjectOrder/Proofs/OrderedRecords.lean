import ProjectOrder.Proofs.RebuiltBraces

/-! Sections that are in order, which are those that sorting leaves as they are. -/
namespace ProjectOrder.Document
open ProjectOrder.Name

/-- The entries of an array differ, and their ranks rise. -/
def Segment.Ordered (rules : Rules) : Segment → Prop
  | .region (.array key _) _ body _ => body.Nodup ∧ body.Pairwise (Precedes (key.entryRank rules))
  | _ => True

/-- The records differ, their ranks rise, and the arrays in them are in order. -/
structure OrderedRecords (rules : Rules) (records : List Record) : Prop where
  arrays : ∀ r ∈ records, ∀ s ∈ segments arrayOpening? r.body, s.Ordered rules
  nodup : (records.map Record.lines).Nodup
  ranked : records.Pairwise (Precedes (recordRank rules))

section Arrays
variable {rules : Rules}

theorem arrange_entries_eq_self_iff {key : ArrayKey} {entries : List Line} :
    (key.arrange rules entries).entries = entries ↔
      entries.Nodup ∧ entries.Pairwise (Precedes (key.entryRank rules)) := by
  rw [ArrayKey.arrange]
  simpa using entries_eq_iff id (key.entryRank rules) entries

theorem sortedEntries_sortedEntries (rules : Rules) (opening : Opening) (body : List Line) :
    sortedEntries rules opening (sortedEntries rules opening body) =
      sortedEntries rules opening body := by
  cases opening with
  | array key indent =>
    have hn := nodup_map_arranged id (key.entryRank rules) body
    have hp := pairwise_arranged id (key.entryRank rules) body
    rw [List.map_id] at hn
    rw [← entries_arrange] at hn hp
    exact arrange_entries_eq_self_iff.mpr ⟨hn, hp⟩
  | «section» kind => rfl

theorem mapBody_sortedEntries_eq_self_iff {s : Segment} :
    s.mapBody (sortedEntries rules) = s ↔ s.Ordered rules := by
  rcases s with line | ⟨_ | _, head, body, closing⟩ | ⟨opening, head, body⟩
  · simp [Segment.mapBody, Segment.Ordered]
  · simpa [Segment.mapBody, Segment.Ordered, sortedEntries] using arrange_entries_eq_self_iff
  · simp [Segment.mapBody, Segment.Ordered, sortedEntries]
  · simp [Segment.mapBody, Segment.Ordered]

theorem sorted_eq_self_iff {r : Record} (hc : Closes arrayOpening? r.body) :
    r.sorted rules = r ↔ ∀ s ∈ segments arrayOpening? r.body, s.Ordered rules := by
  have hb := rebuild_eq_self_iff (sortedEntries_subset rules) hc
  simp only [mapBody_sortedEntries_eq_self_iff] at hb
  rw [← hb]
  obtain ⟨leading, body⟩ := r
  simp [Record.sorted]

theorem sorted_sorted {r : Record} (hc : Closes arrayOpening? r.body) :
    (r.sorted rules).sorted rules = r.sorted rules := by
  simp only [Record.sorted, rebuild_rebuild (sortedEntries_subset rules)
    (sortedEntries_sortedEntries rules) hc]

theorem closes_sorted {r : Record} (hc : Closes arrayOpening? r.body) :
    Closes arrayOpening? (r.sorted rules).body :=
  closes_rebuild (sortedEntries_subset rules) hc

end Arrays

theorem map_sorted_eq_self {rules : Rules} {records : List Record}
    (h : ∀ r ∈ records, r.sorted rules = r) : records.map (Record.sorted rules) = records :=
  (List.map_congr_left h).trans (List.map_id _)

theorem orderedRecords_iff {rules : Rules} {records : List Record}
    (hc : ∀ r ∈ records, Closes arrayOpening? r.body) :
    OrderedRecords rules records ↔ (∀ r ∈ records, r.sorted rules = r) ∧
      ((records.map (Record.sorted rules)).map Record.lines).Nodup ∧
        (records.map (Record.sorted rules)).Pairwise (Precedes (recordRank rules)) := by
  constructor
  · intro h
    obtain ⟨ha, hn, hp⟩ := h
    have hs : ∀ r ∈ records, r.sorted rules = r :=
      fun r hr => (sorted_eq_self_iff (hc r hr)).mpr (ha r hr)
    rw [map_sorted_eq_self hs]
    exact ⟨hs, hn, hp⟩
  · intro h
    obtain ⟨hs, hn, hp⟩ := h
    rw [map_sorted_eq_self hs] at hn hp
    exact ⟨fun r hr => (sorted_eq_self_iff (hc r hr)).mp (hs r hr), hn, hp⟩

section Sections
variable {rules : Rules} {maxLines : Int} {body : List Line} {split : RecordSplit}

theorem arrangedRecords_subperm (rules : Rules) (records : List Record) :
    (arrangedRecords rules records).Subperm (records.map (Record.sorted rules)) :=
  arranged_subperm _ _ _

theorem mem_arrangedRecords {records : List Record} {r : Record}
    (h : r ∈ arrangedRecords rules records) : ∃ original ∈ records, original.sorted rules = r :=
  List.mem_map.mp ((arrangedRecords_subperm rules records).subset h)

/-- Records that keep their braces are the only way to write the lines of their section as records
in which every array has its end. -/
theorem arrangedRecords_eq (h : IsRecordSplit maxLines body split)
    (hc : ∀ r ∈ split.records, Closes arrayOpening? r.body)
    (hk : ∀ r ∈ split.records, r.KeepsBraces rules) {other : RecordSplit}
    (ho : IsRecordSplit maxLines (split.sortedLines rules) other)
    (hco : ∀ r ∈ other.records, Closes arrayOpening? r.body) :
    arrangedRecords rules split.records = other.records ∧ split.trailing = other.trailing := by
  have hlines : (arrangedRecords rules split.records).flatMap Record.lines ++ split.trailing =
      other.records.flatMap Record.lines ++ other.trailing := by
    rw [ho.lines_eq, sortedLines_eq]
  have hkept : ∀ a ∈ arrangedRecords rules split.records,
      a.Starts ∧ BalancedWhere (Closes arrayOpening?) a.body := by
    intro a ha
    obtain ⟨r, hr, rfl⟩ := mem_arrangedRecords ha
    have hw := h.isWhole r hr
    exact ⟨hw.toStarts.sorted, (hk r hr).balancedWhere (hc r hr) hw.balanced⟩
  have hother : ∀ b ∈ other.records,
      b.Starts ∧ Balanced b.body ∧ Closes arrayOpening? b.body := by
    intro b hb
    have hw := ho.isWhole b hb
    exact ⟨hw.toStarts, hw.balanced, hco b hb⟩
  exact eq_of_flatMap_lines_eq hlines h.trailing ho.trailing hkept hother

theorem keepsBraces_of_sortedLines_eq (h : IsRecordSplit maxLines body split)
    (he : split.sortedLines rules = body) : ∀ r ∈ split.records, r.KeepsBraces rules := by
  have hl := congrArg List.length he
  rw [← h.lines_eq, sortedLines_eq, List.length_append, List.length_append] at hl
  have hle : ((arrangedRecords rules split.records).flatMap Record.lines).length ≤
      (split.records.flatMap fun r => (r.sorted rules).lines).length := by
    have := (subperm_flatMap_lines (arrangedRecords_subperm rules split.records)).length_le
    rwa [List.flatMap_map] at this
  intro r hr
  have hp := Conserves.perm_of_flatMap (fun r _ => conserves_sorted rules r) (by omega) r hr
  have hlr : (r.sorted rules).body.length = r.body.length := by
    simpa [Record.lines, Record.sorted] using hp.length_eq
  have harrays : ∀ s ∈ segments arrayOpening? r.body,
      Conserves s.lines (s.mapBody (sortedEntries rules)).lines :=
    fun s _ => conserves_mapBody (conserves_sortedEntries rules) s
  intro s hs
  refine braces_perm (Conserves.perm_of_flatMap harrays ?_ s hs)
  rw [flatMap_lines_segments, ← List.flatMap_map]
  exact hlr.ge

/-- A section is left as it is exactly if it is in order: that records change places cannot make up
for a change inside of them. -/
theorem sortedLines_eq_self_iff (h : IsRecordSplit maxLines body split)
    (hc : ∀ r ∈ split.records, Closes arrayOpening? r.body) :
    split.sortedLines rules = body ↔ OrderedRecords rules split.records := by
  rw [orderedRecords_iff hc]
  constructor
  · intro he
    have hk := keepsBraces_of_sortedLines_eq h he
    obtain ⟨hrecords, -⟩ := arrangedRecords_eq h hc hk (he.symm ▸ h) hc
    have hs : ∀ r ∈ split.records, r.sorted rules = r := by
      intro r hr
      rw [← hrecords] at hr
      obtain ⟨original, ho, rfl⟩ := mem_arrangedRecords hr
      exact sorted_sorted (hc original ho)
    have hn := nodup_map_arranged Record.lines (recordRank rules)
      (split.records.map (Record.sorted rules))
    have hp := pairwise_arranged Record.lines (recordRank rules)
      (split.records.map (Record.sorted rules))
    rw [← arrangedRecords, hrecords] at hn hp
    rw [map_sorted_eq_self hs]
    exact ⟨hs, hn, hp⟩
  · intro h
    obtain ⟨hs, hn, hp⟩ := h
    rw [sortedLines_eq, arrangedRecords, arranged_eq_self _ _ _ hn hp,
      map_sorted_eq_self hs, h.lines_eq]

end Sections

end ProjectOrder.Document
