import ProjectOrder.Proofs.OrderedRecords
import ProjectOrder.Proofs.Runs

/-! Reports tell of a change exactly where there is one. -/
namespace ProjectOrder.Document
open ProjectOrder.Name ProjectOrder.Text

/-- None of the tallies tells of a change. -/
def Passage.Quiet (passage : Passage) : Prop :=
  ∀ tally ∈ passage.tallies, tally.isChange = false

theorem Tally.isChange_eq_false_iff {tally : Tally} :
    tally.isChange = false ↔ tally.duplicates = 0 ∧ tally.reordered = false := by
  simp [Tally.isChange, and_comm]

/-- Segments that are put together tell of no change exactly if they make up the lines again, as
long as this holds of the inside of each region. -/
theorem Joins.quiet_iff {sortBody : Opening → Int → List Line → Except Fault Passage}
    {opening? : Line → Option Opening} {f : Opening → List Line → List Line}
    {lines : List Line} {passage : Passage}
    (h : Joins sortBody (segments opening? lines) passage)
    (hf : ∀ opening body, f opening body ⊆ body)
    (hb : ∀ {opening line body inside}, sortBody opening line body = .ok inside →
      inside.lines = f opening body ∧ (inside.Quiet ↔ inside.lines = body)) :
    passage.Quiet ↔ passage.lines = lines := by
  have quiet : ∀ {segs passage}, Joins sortBody segs passage →
      (passage.Quiet ↔ ∀ s ∈ segs, s.mapBody f = s) := by
    intro segs passage h
    induction h with
    | nil => simp [Passage.Quiet]
    | plain line _ ih => simpa [Segment.mapBody, Passage.Quiet] using ih
    | region opening head closing hi _ ih =>
      obtain ⟨hl, hq⟩ := hb hi
      rw [hl] at hq
      simp only [Passage.Quiet, List.forall_mem_append, List.forall_mem_cons] at ih hq ⊢
      rw [ih, hq]
      simp [Segment.mapBody]
  have hl : passage.lines = rebuild opening? f lines := h.lines_eq fun hi => (hb hi).1
  rw [quiet h, hl, rebuild_eq_self_iff hf h.isClosed]

section Regions
variable {rules : Rules} {options : Options}

theorem quiet_sortArray_iff {key : ArrayKey} {line : Int} {entries : List Line} :
    (sortArray rules key line entries).Quiet ↔
      (sortArray rules key line entries).lines = entries := by
  have h := entries_eq_iff_unchanged id (key.entryRank rules) entries
  rw [List.map_id] at h
  simp only [Passage.Quiet, sortArray, List.mem_singleton, forall_eq,
    Tally.isChange_eq_false_iff]
  exact h.symm

theorem lines_and_quiet_of_sortArrayBody {opening : Opening} {line : Int} {body : List Line}
    {inside : Passage} (h : sortArrayBody rules opening line body = .ok inside) :
    inside.lines = sortedEntries rules opening body ∧ (inside.Quiet ↔ inside.lines = body) := by
  refine ⟨lines_of_sortArrayBody h, ?_⟩
  cases opening with
  | array key indent =>
    cases h
    exact quiet_sortArray_iff
  | «section» kind =>
    cases h
    simp [Passage.Quiet]

theorem SortsArrays.quiet_iff {r : Record} {inside : Passage} (h : SortsArrays rules r inside) :
    inside.Quiet ↔ r.sorted rules = r := by
  have hq := Joins.quiet_iff h (sortedEntries_subset rules) lines_and_quiet_of_sortArrayBody
  rw [hq, ← h.sorted_eq]
  obtain ⟨leading, body⟩ := r
  simp

theorem quiet_insides_iff {records : List Record} {insides : List Passage}
    (h : List.Forall₂ (SortsArrays rules) records insides) :
    (∀ inside ∈ insides, inside.Quiet) ↔ ∀ r ∈ records, r.sorted rules = r := by
  induction h with
  | nil => simp
  | cons hr _ ih => simp only [List.forall_mem_cons, hr.quiet_iff, ih]

theorem SortsSection.quiet_iff {kind : String} {line : Int} {body : List Line}
    {split : RecordSplit} {insides : List Passage} {passage : Passage}
    (h : SortsSection options kind line body split insides passage) :
    passage.Quiet ↔ passage.lines = body := by
  have hparts : passage.Quiet ↔ (∀ inside ∈ insides, inside.Quiet) ∧
      (sectionTally options.rules kind line split.records).isChange = false := by
    simp only [Passage.Quiet, h.tallies_eq, List.forall_mem_append, List.forall_mem_flatMap,
      List.mem_singleton, forall_eq]
  have harranged := entries_eq_iff_unchanged Record.lines (recordRank options.rules)
    (split.records.map (Record.sorted options.rules))
  rw [entries_eq_iff] at harranged
  rw [hparts, quiet_insides_iff h.sortsArrays, Tally.isChange_eq_false_iff, h.lines_eq,
    sortedLines_eq_self_iff h.isRecordSplit h.closes, orderedRecords_iff h.closes, harranged]
  rfl

theorem lines_and_quiet_of_sortBody {opening : Opening} {line : Int} {body : List Line}
    {inside : Passage} (h : sortBody options opening line body = .ok inside) :
    inside.lines = sortedInside options opening body ∧ (inside.Quiet ↔ inside.lines = body) := by
  have hs := sortBody_eq_ok h
  refine ⟨hs.lines_eq, ?_⟩
  cases hs with
  | array key indent => exact quiet_sortArray_iff
  | copied _ => simp [Passage.Quiet, Tally.isChange]
  | sorted _ hsection => exact hsection.quiet_iff

end Regions

/-- A text is left as it is exactly if no tally tells of a change. -/
theorem changed_eq_false_iff {options : Options} {text : List Char} {outcome : Outcome}
    (h : sortText options text = .ok outcome) :
    outcome.changed = false ↔ ∀ tally ∈ outcome.tallies, tally.isChange = false := by
  obtain ⟨passage, hp, rfl⟩ := sortText_eq_ok h
  have hq := hp.quiet_iff (sortedInside_subset options) lines_and_quiet_of_sortBody
  have hc := changed_of_sortText h
  rw [← Bool.not_eq_true, hc, not_not, hp.lines_unlines_eq, ← hq]
  rfl

theorem changed_iff_text_ne {options : Options} {text : List Char} {outcome : Outcome}
    (h : sortText options text = .ok outcome) : outcome.changed = true ↔ outcome.text ≠ text := by
  obtain ⟨passage, -, rfl⟩ := sortText_eq_ok h
  simp

end ProjectOrder.Document

namespace ProjectOrder.Audit
open ProjectOrder.Document

/-- Whether an issue is an error, and no mere warning. -/
abbrev Issue.IsError (issue : Issue) : Prop :=
  issue.severity = .error

theorem exists_isError_issuesOf_iff {tally : Tally} :
    (∃ issue ∈ issuesOf tally, issue.IsError) ↔ tally.isChange = true := by
  unfold issuesOf Tally.isChange
  by_cases hr : tally.reordered <;> by_cases hd : 0 < tally.duplicates <;>
    by_cases hu : 0 < tally.unnamed <;> simp [hr, hd, hu]

theorem valid_ofIssues_iff {issues : List Issue} {sorted : Bool} :
    (Verdict.ofIssues issues sorted).valid = true ↔
      sorted = true ∧ ¬ ∃ issue ∈ issues, issue.IsError := by
  have hm := (List.mergeSort_perm issues fun a b => decide (a.line ≤ b.line)).countP_eq
    (·.severity == .error)
  simp only [Verdict.ofIssues, hm, Bool.and_eq_true, beq_iff_eq, List.countP_eq_zero]
  simp [Issue.IsError]

theorem mem_issues_ofIssues {issues : List Issue} {sorted : Bool} {issue : Issue} :
    issue ∈ (Verdict.ofIssues issues sorted).issues ↔ issue ∈ issues :=
  List.mem_mergeSort

theorem exists_isError_of_changed {options : Options} {text : List Char} {outcome : Outcome}
    (h : sortText options text = .ok outcome) :
    outcome.changed = true ↔ ∃ issue ∈ outcome.tallies.flatMap issuesOf, issue.IsError := by
  rw [← Bool.not_eq_false, changed_eq_false_iff h]
  simp only [List.mem_flatMap, not_forall, Bool.not_eq_false]
  constructor
  · intro h
    obtain ⟨tally, ht, hc⟩ := h
    obtain ⟨issue, hi, he⟩ := exists_isError_issuesOf_iff.mpr hc
    exact ⟨issue, ⟨tally, ht, hi⟩, he⟩
  · intro h
    obtain ⟨issue, ⟨tally, ht, hi⟩, he⟩ := h
    exact ⟨tally, ht, exists_isError_issuesOf_iff.mp ⟨issue, hi, he⟩⟩

theorem valid_audit_iff (options : Options) (text : List Char) :
    (audit options text).valid = true ↔
      ∃ outcome, sortText options text = .ok outcome ∧ outcome.text = text := by
  unfold audit
  cases h : sortText options text with
  | error fault => simp [valid_ofIssues_iff]
  | ok outcome =>
    have hc := changed_iff_text_ne h
    simp only [Verdict.ofTallies, valid_ofIssues_iff, ← exists_isError_of_changed h, hc]
    simp [← Bool.not_eq_true, hc]

theorem exists_isError_of_not_valid {options : Options} {text : List Char}
    (h : (audit options text).valid = false) :
    ∃ issue ∈ (audit options text).issues, issue.IsError := by
  unfold audit at h ⊢
  cases hs : sortText options text with
  | error fault => exact ⟨issueOfFault fault, mem_issues_ofIssues.mpr (by simp), rfl⟩
  | ok outcome =>
    simp only [hs, Verdict.ofTallies, ← Bool.not_eq_true, valid_ofIssues_iff,
      ← exists_isError_of_changed hs] at h
    have hc : outcome.changed = true := by simpa using h
    obtain ⟨issue, hi, he⟩ := (exists_isError_of_changed hs).mp hc
    exact ⟨issue, mem_issues_ofIssues.mpr hi, he⟩

end ProjectOrder.Audit

namespace ProjectOrder.Service
open ProjectOrder.Audit ProjectOrder.Disk ProjectOrder.Document ProjectOrder.Json ProjectOrder.Text

theorem changedRegions_summary_eq_nil_iff (outcome : Bundle.FileOutcome) :
    (summary outcome).field? "changedRegions" = some (.array []) ↔
      ∀ tally ∈ outcome.tallies, tally.isChange = false := by
  change some (Value.array (List.map _ (outcome.tallies.filter Tally.isChange))) = _ ↔ _
  simp

theorem alreadySorted_summary (outcome : Bundle.FileOutcome) :
    (summary outcome).field? "alreadySorted" = some (.bool outcome.alreadySorted) := by
  rfl

/-- A text has changed exactly if a tally tells of a change, an audit is passed exactly by what
sorting leaves as it is and finds an error in all else, and the tool that sorts a file lists a
change exactly if it does not call the file sorted. -/
theorem reports_tell_changes (options : Options) (text : List Char) :
    (∀ outcome, sortText options text = .ok outcome →
      (outcome.changed = true ↔
        ∃ tally ∈ outcome.tallies, tally.reordered = true ∨ 0 < tally.duplicates)) ∧
    ((audit options text).valid = true ↔
      ∃ outcome, sortText options text = .ok outcome ∧ outcome.text = text) ∧
    ((audit options text).valid = false →
      ∃ issue ∈ (audit options text).issues, issue.severity = .error) ∧
    ∀ settings arguments disk answer after, Yields (sortFile settings arguments) disk answer after →
      ∃ file, answer = (summary file).pretty ∧
        (summary file).field? "alreadySorted" = some (.bool file.alreadySorted) ∧
        ((summary file).field? "changedRegions" = some (.array []) ↔
          file.alreadySorted = true) := by
  refine ⟨fun outcome h => ?_, valid_audit_iff options text, exists_isError_of_not_valid, ?_⟩
  · rw [← Bool.not_eq_false, changed_eq_false_iff h]
    simp only [not_forall, exists_prop, Bool.not_eq_false, Tally.isChange, Bool.or_eq_true,
      decide_eq_true_eq, gt_iff_lt]
  · intro settings arguments disk answer after h
    obtain ⟨_, _, sorted, path, hs, rfl⟩ := summary_of_sortFile h
    refine ⟨_, rfl, alreadySorted_summary _, ?_⟩
    rw [changedRegions_summary_eq_nil_iff, ← changed_eq_false_iff hs]
    simp

/-- A disk with nothing but an empty project. -/
def emptyProject : Snapshot :=
  { items := [([Bundle.projectFile], .file [] 0o600)]
    workingDirectory := []
    umask := 0
    temporaryTag := "" }

private theorem yields_read_emptyProject :
    Yields (Bundle.read Bundle.projectFile) emptyProject [] emptyProject := by
  have hp : Path.isPath Bundle.projectFile = true := by decide +kernel
  have hs : Snapshot.steps Bundle.projectFile = [Bundle.projectFile] := by decide +kernel
  have ha : Path.isAbsolute Bundle.projectFile = false := by decide +kernel
  have hb : ¬ Snapshot.maxNameBytes < Bundle.projectFile.utf8ByteSize := by decide +kernel
  have hn : Bundle.projectFile ≠ "" ∧ Bundle.projectFile ≠ "." ∧ Bundle.projectFile ≠ ".." := by
    decide
  have hw : emptyProject.walk true Snapshot.maxLinks [] [Bundle.projectFile] =
      .ok ([Bundle.projectFile], some (.file [] 0o600)) := by
    have hsearch : emptyProject.grants Snapshot.isSearchable [] = true := by decide +kernel
    have hdirectory : emptyProject.isDirectory [] = true := by decide +kernel
    have hitem : emptyProject.item? [Bundle.projectFile] = some (.file [] 0o600) := by
      simp [Snapshot.item?, emptyProject]
    simp [Snapshot.walk, hsearch, hdirectory, hitem, hb, hn]
  have hf : emptyProject.find true Bundle.projectFile =
      .ok ([Bundle.projectFile], some (.file [] 0o600)) := by
    simp only [Snapshot.find, hp, hs, ha, hn.1]
    exact hw
  have hr : emptyProject.read Bundle.projectFile = .ok [] := by
    simp only [Snapshot.read, Snapshot.get, hf]
    rfl
  have hd : Bundle.decode [] = .ok [] := by
    simp [Bundle.decode, Text.Utf8.decode?, Text.Utf8.readAll]
  refine yields_bind_iff.mpr ⟨[], emptyProject, yields_adapt_iff.mpr ?_, ?_⟩
  · exact congrArg (·, emptyProject) hr
  · exact yields_ofExcept_iff.mpr ⟨hd, rfl⟩

private theorem readArguments_emptyProject :
    readArguments "file_path" (some (.object [("file_path", .string Bundle.projectFile)])) =
      .ok (Bundle.projectFile, none) := by
  cbv

private theorem sortContent_nil :
    Bundle.sortContent (⟨false, [], [], 10000, List.not_mem_nil⟩ : Options).preferences [] =
      .ok ⟨[], false, []⟩ := by
  cbv

private theorem yields_sortFile_emptyProject :
    Yields (sortFile ⟨false, [], [], none⟩
      (some (.object [("file_path", .string Bundle.projectFile)]))) emptyProject
        (summary ⟨Bundle.projectFile, true, false, []⟩).pretty emptyProject := by
  have hp : Bundle.resolve Bundle.projectFile = .ok Bundle.projectFile := by decide +kernel
  refine yields_bind_iff.mpr
    ⟨_, emptyProject, yields_ofExcept_iff.mpr ⟨readArguments_emptyProject, rfl⟩, ?_⟩
  refine yields_adapt_iff.mpr (yields_bind_iff.mpr ⟨_, _, yields_ofExcept_iff.mpr ⟨hp, rfl⟩, ?_⟩)
  refine yields_bind_iff.mpr ⟨_, _, yields_ofExcept_iff.mpr ⟨rfl, rfl⟩, ?_⟩
  refine yields_bind_iff.mpr ⟨_, _, ?_, yields_pure_iff.mpr ⟨rfl, rfl⟩⟩
  exact Bundle.yields_sort_of_not_changed yields_read_emptyProject sortContent_nil rfl

/-- Two records that change places, and a project that is sorted. -/
theorem reports_tell_changes_of_swapped_records :
    (∃ outcome, sortText sampleOptions (unlines swappedRecords.lines) = .ok outcome ∧
      ∃ tally ∈ outcome.tallies, tally.reordered = true ∨ 0 < tally.duplicates) ∧
    (∃ issue ∈ (audit sampleOptions (unlines swappedRecords.lines)).issues,
      issue.severity = .error) ∧
    ∃ answer, Yields (sortFile ⟨false, [], [], none⟩
        (some (.object [("file_path", .string Bundle.projectFile)])))
        emptyProject answer emptyProject ∧
      ∃ file, answer = (summary file).pretty ∧
        ((summary file).field? "changedRegions" = some (.array []) ↔
          file.alreadySorted = true) := by
  obtain ⟨hchanged, -, hinvalid, hanswer⟩ :=
    reports_tell_changes sampleOptions (unlines swappedRecords.lines)
  have hs := sortText_swappedRecords
  have hv : (audit sampleOptions (unlines swappedRecords.lines)).valid = false := by
    unfold audit
    rw [hs]
    rfl
  obtain ⟨file, hanswer, -, hfile⟩ := hanswer _ _ _ _ _ yields_sortFile_emptyProject
  exact ⟨⟨_, hs, (hchanged _ hs).mp rfl⟩, hinvalid hv,
    _, yields_sortFile_emptyProject, file, hanswer, hfile⟩

end ProjectOrder.Service
