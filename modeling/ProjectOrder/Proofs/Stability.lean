import ProjectOrder.Proofs.Reports

/-! When sorting a sorted text changes nothing. -/
namespace ProjectOrder.Document
open ProjectOrder.Name ProjectOrder.Text

/-- Sorting the text succeeds, leaves it as it is and tells of no change. -/
def Settled (options : Options) (text : List Char) : Prop :=
  ∃ again, sortText options text = .ok again ∧ again.text = text ∧ again.changed = false ∧
    ∀ tally ∈ again.tallies, tally.duplicates = 0 ∧ tally.reordered = false

/-- The lines are records in order, with every array closed, and lines after the last of them. -/
def InOrder (options : Options) (lines : List Line) : Prop :=
  ∃ split, IsRecordSplit options.maxRecordLines lines split ∧
    (∀ r ∈ split.records, Closes arrayOpening? r.body) ∧ OrderedRecords options.rules split.records

/-- One of the sections of a text that are sorted is taken apart like this. -/
def HasSplit (options : Options) (text : List Char) (split : RecordSplit) : Prop :=
  ∃ kind head body closing,
    .region (.section kind) head body closing ∈ segments opening? (lines text) ∧
      kind ∈ options.sortableSections ∧ IsRecordSplit options.maxRecordLines body split

/-- Each record of a sorted section closes its braces at its last line and no earlier, also once its
arrays are sorted. -/
def KeepsRecords (options : Options) (text : List Char) : Prop :=
  ∀ split, HasSplit options text split →
    ∀ r ∈ split.records, Balanced (r.sorted options.rules).body

/-- The entries that are left out of the arrays of sorted sections have even braces. -/
def KeepsBraces (options : Options) (text : List Char) : Prop :=
  ∀ split, HasSplit options text split → ∀ r ∈ split.records, r.KeepsBraces options.rules

/-- No entry of an array in a sorted section opens more braces than it closes, or closes more. -/
def EvenEntries (options : Options) (text : List Char) : Prop :=
  ∀ split, HasSplit options text split →
    ∀ r ∈ split.records, ∀ s ∈ segments arrayOpening? r.body, s.IsEven

/-- The sorted lines of each section can be taken apart into records again, which are in order. -/
def RecutsInOrder (options : Options) (text : List Char) : Prop :=
  ∀ split, HasSplit options text split → InOrder options (split.sortedLines options.rules)

section Sections
variable {options : Options} {rules : Rules} {maxLines : Int} {body : List Line}
  {split : RecordSplit}

/-- Records that stay balanced are told apart again once they are sorted. -/
theorem isRecordSplit_arrangedRecords (h : IsRecordSplit maxLines body split)
    (hb : ∀ r ∈ split.records, Balanced (r.sorted rules).body) :
    IsRecordSplit maxLines (split.sortedLines rules)
      ⟨arrangedRecords rules split.records, split.trailing⟩ := by
  constructor
  · exact (sortedLines_eq rules split).symm
  · intro a ha
    obtain ⟨r, hr, rfl⟩ := mem_arrangedRecords ha
    have hw := h.isWhole r hr
    have hl : (r.sorted rules).body.length ≤ r.body.length :=
      (conserves_rebuild (conserves_sortedEntries rules) r.body).length_le
    exact ⟨hw.toStarts.sorted, hb r hr, hl.trans hw.length_le⟩
  · exact h.trailing

theorem orderedRecords_arrangedRecords {records : List Record}
    (hc : ∀ r ∈ records, Closes arrayOpening? r.body) :
    OrderedRecords rules (arrangedRecords rules records) := by
  constructor
  · intro a ha
    obtain ⟨r, hr, rfl⟩ := mem_arrangedRecords ha
    have hclosed : Closes arrayOpening? (r.sorted rules).body := closes_sorted (hc r hr)
    exact (sorted_eq_self_iff hclosed).mp (sorted_sorted (hc r hr))
  · exact nodup_map_arranged _ _ _
  · exact pairwise_arranged _ _ _

theorem inOrder_of_balanced (h : IsRecordSplit options.maxRecordLines body split)
    (hc : ∀ r ∈ split.records, Closes arrayOpening? r.body)
    (hb : ∀ r ∈ split.records, Balanced (r.sorted options.rules).body) :
    InOrder options (split.sortedLines options.rules) := by
  have hsplit := isRecordSplit_arrangedRecords h hb
  have hordered : OrderedRecords options.rules (arrangedRecords options.rules split.records) :=
    orderedRecords_arrangedRecords hc
  refine ⟨_, hsplit, fun a ha => ?_, hordered⟩
  obtain ⟨r, hr, rfl⟩ := mem_arrangedRecords ha
  exact closes_sorted (hc r hr)

/-- A record of the same lines has the same body. -/
theorem Record.Starts.body_eq {r s : Record} (hr : r.Starts) (hs : s.Starts)
    (h : r.lines = s.lines) : r.body = s.body := by
  have := (hr.leading_eq []).2
  rw [h, (hs.leading_eq []).2] at this
  simpa using this.symm

/-- Records that keep their braces can be told apart again only where they stay balanced. -/
theorem balanced_of_inOrder (h : IsRecordSplit options.maxRecordLines body split)
    (hc : ∀ r ∈ split.records, Closes arrayOpening? r.body)
    (hk : ∀ r ∈ split.records, r.KeepsBraces options.rules)
    (ho : InOrder options (split.sortedLines options.rules)) :
    ∀ r ∈ split.records, Balanced (r.sorted options.rules).body := by
  obtain ⟨other, hother, hco, -⟩ := ho
  obtain ⟨hrecords, -⟩ := arrangedRecords_eq h hc hk hother hco
  intro r hr
  -- A record that repeats another is left out, but the other one has its lines.
  have hm : (r.sorted options.rules).lines ∈
      (arrangedRecords options.rules split.records).map Record.lines := by
    rw [arrangedRecords, mem_map_arranged]
    exact List.mem_map_of_mem (List.mem_map_of_mem hr)
  obtain ⟨a, ha, hl⟩ := List.mem_map.mp hm
  rw [hrecords] at ha
  have hw := hother.isWhole a ha
  exact hw.toStarts.body_eq (h.isWhole r hr).toStarts.sorted hl ▸ hw.balanced

end Sections

section Texts
variable {options : Options} {text : List Char} {outcome : Outcome}

theorem settled_iff_changed : Settled options text ↔
    ∃ again, sortText options text = .ok again ∧ again.changed = false := by
  constructor
  · intro h
    obtain ⟨again, h, -, hc, -⟩ := h
    exact ⟨again, h, hc⟩
  · intro h
    obtain ⟨again, h, hc⟩ := h
    refine ⟨again, h, ?_, hc, fun tally ht => ?_⟩
    · by_contra hne
      simp [(changed_iff_text_ne h).mpr hne] at hc
    · exact Tally.isChange_eq_false_iff.mp ((changed_eq_false_iff h).mp hc tally ht)

theorem settled_iff : Settled options text ↔
    ∃ again, sortText options text = .ok again ∧
      ∀ s ∈ segments opening? (lines text), s.mapBody (sortedInside options) = s := by
  rw [settled_iff_changed]
  refine exists_congr fun again => and_congr_right fun h => ?_
  rw [← Bool.not_eq_true, changed_of_sortText h, not_not, lines_of_sortText h]
  exact rebuild_eq_self_iff (sortedInside_subset options) (closes_of_sortText h)

theorem recutsInOrder_of_settled (h : sortText options text = .ok outcome)
    (hs : Settled options outcome.text) : RecutsInOrder options text := by
  obtain ⟨again, ha, hfix⟩ := settled_iff.mp hs
  intro split hsplit
  obtain ⟨kind, head, body, closing, hm, hk, hbody⟩ := hsplit
  have hm' : .region (.section kind) head (split.sortedLines options.rules) closing ∈
      segments opening? (lines outcome.text) := by
    rw [segments_of_sortText h, ← sortedInside_of_isRecordSplit hk hbody]
    exact List.mem_map_of_mem (f := Segment.mapBody (sortedInside options)) hm
  obtain ⟨other, hother, hclosed⟩ := exists_isRecordSplit_of_sortText ha hm' hk
  have hself := hfix _ hm'
  rw [Segment.mapBody, sortedInside_of_isRecordSplit hk hother, Segment.region.injEq] at hself
  exact ⟨other, hother, hclosed, (sortedLines_eq_self_iff hother hclosed).mp hself.2.2.1⟩

theorem RecutsInOrder.inOrder (ho : RecutsInOrder options text)
    (h : sortText options text = .ok outcome) {kind : String} {head closing : Line}
    {body : List Line}
    (hm : .region (.section kind) head body closing ∈ segments opening? (lines text))
    (hk : kind ∈ options.sortableSections) :
    InOrder options (sortedInside options (.section kind) body) := by
  obtain ⟨split, hsplit, -⟩ := exists_isRecordSplit_of_sortText h hm hk
  rw [sortedInside_of_isRecordSplit hk hsplit]
  exact ho split ⟨kind, head, body, closing, hm, hk, hsplit⟩

theorem RecutsInOrder.exists_again (ho : RecutsInOrder options text)
    (h : sortText options text = .ok outcome) :
    ∃ again, sortText options outcome.text = .ok again := by
  apply exists_sortText
  · rw [lines_of_sortText h]
    exact closes_rebuild (sortedInside_subset options) (closes_of_sortText h)
  · intro kind head body closing hm hk
    rw [segments_of_sortText h] at hm
    obtain ⟨s, hs, he⟩ := List.mem_map.mp hm
    cases s with
    | plain line => cases he
    | region opening original inside last =>
      cases he
      obtain ⟨split, hsplit, hclosed, -⟩ := ho.inOrder h hs hk
      exact ⟨split, hsplit, hclosed⟩
    | unclosed opening original inside => cases he

theorem RecutsInOrder.settled (ho : RecutsInOrder options text)
    (h : sortText options text = .ok outcome) : Settled options outcome.text := by
  obtain ⟨again, ha⟩ := ho.exists_again h
  refine settled_iff.mpr ⟨again, ha, ?_⟩
  rw [segments_of_sortText h, List.forall_mem_map]
  intro s hs
  rcases s with line | ⟨⟨key, indent⟩ | kind, head, body, closing⟩ | ⟨opening, head, body⟩
  · rfl
  · have hbody := sortedEntries_sortedEntries options.rules (.array key indent) body
    exact congrArg (Segment.region (.array key indent) head · closing) hbody
  · by_cases hk : kind ∈ options.sortableSections
    · obtain ⟨split, hsplit, hclosed, hordered⟩ := ho.inOrder h hs hk
      have hbody := (sortedLines_eq_self_iff hsplit hclosed).mpr hordered
      rw [← sortedInside_of_isRecordSplit hk hsplit] at hbody
      exact congrArg (Segment.region (.section kind) head · closing) hbody
    · simp [Segment.mapBody, sortedInside, hk]
  · rfl

theorem EvenEntries.keepsRecords (h : EvenEntries options text) : KeepsRecords options text := by
  intro split hsplit r hr
  have hfollows := follows_rebuild (sortedEntries_subset options.rules) (h split hsplit r hr)
  obtain ⟨kind, head, body, closing, -, -, hbody⟩ := hsplit
  exact hfollows.balanced (hbody.isWhole r hr).balanced

theorem HasSplit.closes (h : sortText options text = .ok outcome) {split : RecordSplit}
    (hsplit : HasSplit options text split) :
    ∃ body, IsRecordSplit options.maxRecordLines body split ∧
      ∀ r ∈ split.records, Closes arrayOpening? r.body := by
  obtain ⟨kind, head, body, closing, hm, hk, hbody⟩ := hsplit
  obtain ⟨other, hother, hclosed⟩ := exists_isRecordSplit_of_sortText h hm hk
  obtain rfl := hbody.unique hother
  exact ⟨body, hbody, hclosed⟩

theorem KeepsRecords.recutsInOrder (hk : KeepsRecords options text)
    (h : sortText options text = .ok outcome) : RecutsInOrder options text := by
  intro split hsplit
  obtain ⟨body, hbody, hclosed⟩ := hsplit.closes h
  exact inOrder_of_balanced hbody hclosed (hk split hsplit)

theorem RecutsInOrder.keepsRecords (ho : RecutsInOrder options text)
    (hb : KeepsBraces options text) (h : sortText options text = .ok outcome) :
    KeepsRecords options text := by
  intro split hsplit
  obtain ⟨body, hbody, hclosed⟩ := hsplit.closes h
  exact balanced_of_inOrder hbody hclosed (hb split hsplit) (ho split hsplit)

/-- Sorting a sorted text changes nothing exactly if the records of its sections can be told apart
again and are in order. They can if each of them keeps its bounds, as it does if all entries have
even braces, and unless braces get lost with repeated entries, that is the only way. -/
theorem settled_exactly_if_records_keep (h : sortText options text = .ok outcome) :
    (Settled options outcome.text ↔ RecutsInOrder options text) ∧
    (KeepsRecords options text → Settled options outcome.text) ∧
    (EvenEntries options text → Settled options outcome.text) ∧
    (KeepsBraces options text → (Settled options outcome.text ↔ KeepsRecords options text)) := by
  have hiff : Settled options outcome.text ↔ RecutsInOrder options text :=
    ⟨recutsInOrder_of_settled h, fun ho => ho.settled h⟩
  have hkeeps : KeepsRecords options text → Settled options outcome.text :=
    fun hk => hiff.mpr (hk.recutsInOrder h)
  have heven : EvenEntries options text → Settled options outcome.text :=
    fun he => hkeeps he.keepsRecords
  refine ⟨hiff, hkeeps, heven, fun hb => ?_⟩
  constructor
  · intro hs
    exact (hiff.mp hs).keepsRecords hb h
  · exact hkeeps

end Texts

/-- Two records without arrays change places for good. -/
theorem settled_of_swapped_records :
    KeepsRecords sampleOptions (unlines swappedRecords.lines) ∧
      Settled sampleOptions
        (unlines (swappedRecords.mapBody fun _ => List.reverse).lines) := by
  have plain : ∀ split,
      HasSplit sampleOptions (unlines swappedRecords.lines) split →
        ∀ r ∈ split.records, ∀ s ∈ segments arrayOpening? r.body, ∃ line, s = .plain line := by
    intro split hsplit
    obtain ⟨kind, head, body, closing, hm, -, hsplit⟩ := hsplit
    rw [segments_swappedRecords, List.mem_singleton, swappedRecords, Segment.region.injEq] at hm
    obtain ⟨-, -, rfl, -⟩ := hm
    have hs : splitRecords 1 0 ["000000000000000000000000 /* b */ = \x7b\x7d".toList,
        "000000000000000000000001 /* a */ = \x7b\x7d".toList] = .ok
          ⟨[⟨[], ["000000000000000000000000 /* b */ = \x7b\x7d".toList]⟩,
            ⟨[], ["000000000000000000000001 /* a */ = \x7b\x7d".toList]⟩], []⟩ := by
      cbv
    obtain rfl := hsplit.unique (isRecordSplit_of_splitRecords hs)
    have single : ∀ line, arrayOpening? line = none →
        ∀ s ∈ segments arrayOpening? [line], ∃ l, s = .plain l := by
      intro line ho
      simp [segments_plain ho]
    simp only [List.forall_mem_cons, List.not_mem_nil, false_imp_iff, implies_true, and_true]
    exact ⟨single _ (by decide +kernel), single _ (by decide +kernel)⟩
  have heven : EvenEntries sampleOptions (unlines swappedRecords.lines) := by
    intro split hsplit r hr s hs
    obtain ⟨line, rfl⟩ := plain split hsplit r hr s hs
    trivial
  have hbraces : KeepsBraces sampleOptions (unlines swappedRecords.lines) := by
    intro split hsplit r hr s hs
    obtain ⟨line, rfl⟩ := plain split hsplit r hr s hs
    rfl
  obtain ⟨-, hsettled, hsettled', hiff⟩ := settled_exactly_if_records_keep sortText_swappedRecords
  have hk := (hiff hbraces).mp (hsettled' heven)
  exact ⟨hk, hsettled hk⟩

/-- The options that are left to the defaults. -/
def standardOptions : Options :=
  ⟨false, defaultKnownFiles, defaultSortableSections, defaultMaxRecordLines, by decide⟩

theorem resolve_default : Preferences.resolve {} = .ok standardOptions := by
  have hlink : linkOrderedSection ∉ defaultSortableSections := standardOptions.keepsLinkOrder
  simp [Preferences.resolve, hlink, standardOptions]

/-- A group whose entries are given. -/
def groupOf (entries : List Line) : Segment :=
  .region (.section "PBXGroup") "/* Begin PBXGroup section */".toList
    (["\t\tAAAAAAAAAAAAAAAAAAAAAAAA /* Main */ = \x7b".toList, "\t\t\tchildren = (".toList] ++
      entries ++ ["\t\t\t);".toList, "\t\t\x7d;".toList])
    "/* End PBXGroup section */".toList

def opened : Line :=
  "\t\t\t\tBBBBBBBBBBBBBBBBBBBBBBBB /* b\x7b.txt */,".toList

def closed : Line :=
  "\t\t\t\tCCCCCCCCCCCCCCCCCCCCCCCC /* a\x7d.txt */,".toList

private theorem segments_groupOf {entries : List Line} (hc : (groupOf entries).IsCut opening?)
    (hl : lines (unlines (groupOf entries).lines) = (groupOf entries).lines) :
    segments opening? (lines (unlines (groupOf entries).lines)) = [groupOf entries] := by
  rw [hl]
  exact (segments_region hc []).trans (by rw [segments_nil]; rfl)

private theorem sortText_opened_closed :
    sortText standardOptions (unlines (groupOf [opened, closed]).lines) = .ok
      { text := unlines (groupOf [closed, opened]).lines
        changed := true
        tallies := [
          { kind := .array, name := "children", line := 3, entries := 2, reordered := true },
          { kind := .section, name := "PBXGroup", line := 1, entries := 1 }] } := by
  have hc : (groupOf [opened, closed]).IsCut opening? :=
    ⟨by decide +kernel, by decide +kernel, by decide +kernel⟩
  rw [sortText, sortLines, segments_groupOf hc (by decide +kernel)]
  cbv

private theorem sortText_closed_opened :
    sortText standardOptions (unlines (groupOf [closed, opened]).lines) =
      .error (.unterminated (.array .children "\t\t\t".toList) 3) := by
  have hc : (groupOf [closed, opened]).IsCut opening? :=
    ⟨by decide +kernel, by decide +kernel, by decide +kernel⟩
  rw [sortText, sortLines, segments_groupOf hc (by decide +kernel)]
  cbv

/-- An entry that closes a brace comes to stand before one that opens a brace, so that the record
ends in the middle of its array. -/
theorem sorted_group_not_settled :
    ∃ outcome, sortText standardOptions (unlines (groupOf [opened, closed]).lines) = .ok outcome ∧
      sortText standardOptions outcome.text =
        .error (.unterminated (.array .children "\t\t\t".toList) 3) ∧
      ¬ Settled standardOptions outcome.text := by
  refine ⟨_, sortText_opened_closed, sortText_closed_opened, ?_⟩
  intro h
  obtain ⟨again, h, -⟩ := h
  rw [sortText_closed_opened] at h
  cases h

end ProjectOrder.Document
