import ProjectOrder.Proofs.ProjectSorts

/-! Runs over many files, each of which is sorted or checked as if it were the only one. -/
namespace ProjectOrder.Command
open ProjectOrder.Bundle ProjectOrder.Disk ProjectOrder.Disk.Snapshot ProjectOrder.Document
open ProjectOrder.Text

/-- How the sorting of several files went: each came out as if it were the only one, up to the first
that failed if that ends the run. -/
structure SortsEach (options : Options) (wishes : Wishes) (files : List String)
    (disk after : Snapshot) (work : Work) : Prop where
  no_fault : work.fault = none
  failed_iff : 0 < work.failed ↔
    ∃ file ∈ files, Fails disk options.preferences wishes.checkOnly file
  unsorted_iff : work.failed = 0 → (0 < work.unsorted ↔ wishes.checkOnly = true ∧
    ∃ file ∈ files, ∃ sorted, sortedAt disk file options.preferences = .ok sorted ∧
      sorted.changed = true)
  checked : wishes.checkOnly = true → after = disk
  left_eq : wishes.failFast = false ∨ work.failed = 0 → ∀ file ∈ files,
    ¬ Fails disk options.preferences wishes.checkOnly file → ∀ place content mode sorted,
      CanSort disk file options.preferences place content mode sorted →
        after.item? place = some (leftOf disk wishes.checkOnly content mode sorted)
  others : ∀ place, (∀ file ∈ files, ¬ Fails disk options.preferences wishes.checkOnly file →
    ∀ content mode sorted, ¬ CanSort disk file options.preferences place content mode sorted) →
      after.item? place = disk.item? place

section Runs
variable {disk middle after : Snapshot} {options : Options} {wishes : Wishes} {file : String}
  {files : List String} {work later : Work} {notices : List Units}

theorem run_sortEach_of_error {fault : Bundle.Fault}
    (hrun : outcome (Bundle.sort file options.preferences wishes.checkOnly) disk =
      (.error fault, middle)) (hfault : ∀ left, fault ≠ .notCleared left)
    (hlater : (sortEach options wishes files : StateM Snapshot Work).run middle = (later, after)) :
    ∃ notice, (sortEach options wishes (file :: files) : StateM Snapshot Work).run disk =
      if wishes.failFast then ({ failed := 1, notices := [notice] }, middle)
      else ({ later with failed := later.failed + 1, notices := notice :: later.notices },
        after) := by
  have hstep : (Bundle.sort file options.preferences wishes.checkOnly :
      ExceptT Bundle.Fault (StateM Snapshot) FileOutcome).run.run disk =
        (.error fault, middle) := hrun
  rw [sortEach, run_bind_of_eq hstep]
  -- Every fault but the one that ends the run is told in the same way.
  have hnotice : ∀ notice : Units, (if wishes.failFast then pure { failed := 1, notices := [notice] }
      else do
        let later ← sortEach options wishes files
        pure { later with failed := later.failed + 1, notices := notice :: later.notices } :
          StateM Snapshot Work).run middle =
      if wishes.failFast then ({ failed := 1, notices := [notice] }, middle)
      else ({ later with failed := later.failed + 1, notices := notice :: later.notices },
        after) := by
    intro notice
    split_ifs
    · rfl
    · exact run_bind_of_eq hlater
  cases fault with
  | notCleared left => exact absurd rfl (hfault left)
  | notAProject | unreadable | notText | unwritable | options | document => exact ⟨_, hnotice _⟩

theorem run_sortEach_of_ok {result : FileOutcome}
    (hrun : outcome (Bundle.sort file options.preferences wishes.checkOnly) disk =
      (.ok result, middle))
    (hlater : (sortEach options wishes files : StateM Snapshot Work).run middle = (later, after)) :
    ∃ notices, (sortEach options wishes (file :: files) : StateM Snapshot Work).run disk =
      ({ later with
          unsorted := later.unsorted + if wishes.checkOnly && !result.alreadySorted then 1 else 0
          notices }, after) := by
  have hstep : (Bundle.sort file options.preferences wishes.checkOnly :
      ExceptT Bundle.Fault (StateM Snapshot) FileOutcome).run.run disk =
        (.ok result, middle) := hrun
  rw [sortEach, run_bind_of_eq hstep]
  simp only
  rw [run_bind_of_eq hlater]
  cases hw : wishes.checkOnly && !result.alreadySorted with
  | true => exact ⟨_, rfl⟩
  | false => exact ⟨_, rfl⟩

/-- A run that ends at a file that fails. -/
theorem SortsEach.stop (hfails : Fails disk options.preferences wishes.checkOnly file)
    (hfast : wishes.failFast = true) :
    SortsEach options wishes (file :: files) disk disk { failed := 1, notices } := by
  constructor
  · rfl
  · simp only [Nat.one_pos, true_iff]
    exact ⟨file, List.mem_cons_self, hfails⟩
  · simp
  · exact fun _ => rfl
  · simp [hfast]
  · exact fun _ _ => rfl

theorem SortsEach.fail (h : SortsEach options wishes files disk after later)
    (hfails : Fails disk options.preferences wishes.checkOnly file)
    (hfast : wishes.failFast = false) :
    SortsEach options wishes (file :: files) disk after
      { later with failed := later.failed + 1, notices } := by
  constructor
  · exact h.no_fault
  · simp only [Nat.succ_pos, true_iff]
    exact ⟨file, List.mem_cons_self, hfails⟩
  · simp
  · exact h.checked
  · intro _
    rw [List.forall_mem_cons]
    exact ⟨fun hnot => absurd hfails hnot, h.left_eq (.inl hfast)⟩
  · intro place hnone
    rw [List.forall_mem_cons] at hnone
    exact h.others place hnone.2

/-- A file is sorted, and then others, none of which is in its place. -/
theorem SortsEach.sort {place : Location} {content : List UInt8} {mode : Nat} {sorted : Outcome}
    (hone : SortsOne disk middle file options.preferences wishes.checkOnly place content mode sorted)
    (hnot : ¬ Fails disk options.preferences wishes.checkOnly file)
    (hget : ∀ other ∈ files, middle.get other = disk.get other)
    (hfails : ∀ other ∈ files, Fails middle options.preferences wishes.checkOnly other ↔
      Fails disk options.preferences wishes.checkOnly other)
    (happart : ∀ other ∈ files, Apart disk file other)
    (h : SortsEach options wishes files middle after later) :
    SortsEach options wishes (file :: files) disk after
      { later with
          unsorted := later.unsorted + if wishes.checkOnly && sorted.changed then 1 else 0
          notices } := by
  have hfile : sortedAt disk file options.preferences = .ok sorted :=
    sortedAt_eq_ok_iff.mpr ⟨place, content, mode, hone.canSort⟩
  have hsorted : ∀ other ∈ files,
      sortedAt middle other options.preferences = sortedAt disk other options.preferences :=
    fun other hm => sortedAt_congr (hget other hm)
  have hcan : ∀ other ∈ files, ∀ place content mode sorted,
      CanSort middle other options.preferences place content mode sorted ↔
        CanSort disk other options.preferences place content mode sorted :=
    fun other hm _ _ _ _ => canSort_congr (hget other hm)
  constructor
  · exact h.no_fault
  · rw [List.exists_mem_cons_iff, or_iff_right hnot]
    rw [h.failed_iff]
    exact exists_congr fun other => and_congr_right fun hm => hfails other hm
  · intro hfailed
    have hrest : (∃ other ∈ files, ∃ sorted,
        sortedAt middle other options.preferences = .ok sorted ∧ sorted.changed = true) ↔
          ∃ other ∈ files, ∃ sorted,
            sortedAt disk other options.preferences = .ok sorted ∧ sorted.changed = true :=
      exists_congr fun other => and_congr_right fun hm => by rw [hsorted other hm]
    have hunsorted := h.unsorted_iff hfailed
    rw [hrest] at hunsorted
    rw [List.exists_mem_cons_iff, hfile, Nat.add_pos_iff_pos_or_pos, hunsorted]
    cases wishes.checkOnly <;> cases hc : sorted.changed <;> simp [hc]
  · intro hcheck
    rw [h.checked hcheck, hone.checked hcheck]
  · intro hall
    rw [List.forall_mem_cons]
    constructor
    · intro _ found bytes bits outcome hc
      obtain ⟨rfl, rfl, rfl, rfl⟩ := hone.canSort.unique hc
      -- None of the later files is in this place, so that it keeps what this sort left there.
      rw [h.others place fun other hm _ content mode sorted hother => ?_, hone.changesOnly.item_eq]
      exact happart other hm _ _ hone.canSort.get_eq _ ((hcan other hm _ _ _ _).mp hother).get_eq
    · intro other hm hok found bytes bits outcome hc
      rw [h.left_eq hall other hm ((hfails other hm).not.mpr hok) found bytes bits outcome
        ((hcan other hm _ _ _ _).mpr hc)]
      simp only [leftOf, replacement, hone.changesOnly.umask]
  · intro other hnone
    rw [List.forall_mem_cons] at hnone
    have hne : other ≠ place := by
      rintro rfl
      exact hnone.1 hnot content mode sorted hone.canSort
    rw [h.others other fun file hm hok content mode sorted hc => ?_,
      hone.changesOnly.others other hne]
    exact hnone.2 file hm ((hfails file hm).not.mp hok) content mode sorted
      ((hcan file hm _ _ _ _).mp hc)

theorem run_sortEach (hno : disk.NoLinks) (hfresh : HasFreshTag disk)
    (htargets : ∀ file ∈ files, IsTarget disk file) (hclears : ∀ file ∈ files, ClearsUp disk file)
    (happart : files.Pairwise (Apart disk)) :
    ∃ work after, (sortEach options wishes files : StateM Snapshot Work).run disk =
      (work, after) ∧ SortsEach options wishes files disk after work := by
  -- The rest of the files is sorted on a disk where one file has changed. What is asked of the disk
  -- holds there, too, and the paths of the rest name the same files as before.
  induction files generalizing disk with
  | nil => exact ⟨_, _, rfl, rfl, by simp, by simp, fun _ => rfl, by simp, fun _ _ => rfl⟩
  | cons file files ih =>
    rw [List.forall_mem_cons] at htargets hclears
    rw [List.pairwise_cons] at happart
    rcases outcome_sort_cases hno hfresh htargets.1.name_eq hclears.1 options.preferences
        wishes.checkOnly with
      ⟨fault, -, hleft, hrun⟩ | ⟨place, content, mode, sorted, middle, hone, -, hrun⟩
    · have hfails : Fails disk options.preferences wishes.checkOnly file := ⟨fault, by rw [hrun]⟩
      obtain ⟨later, after, hlater, hsorts⟩ := ih hno hfresh htargets.2 hclears.2 happart.2
      obtain ⟨notice, hall⟩ := run_sortEach_of_error hrun hleft hlater
      cases hfast : wishes.failFast with
      | true =>
        rw [if_pos hfast] at hall
        exact ⟨_, _, hall, .stop hfails hfast⟩
      | false =>
        rw [if_neg (by simp [hfast])] at hall
        exact ⟨_, _, hall, hsorts.fail hfails hfast⟩
    · have hnot : ¬ Fails disk options.preferences wishes.checkOnly file := by
        intro hfails
        obtain ⟨fault, hfault⟩ := hfails
        rw [hrun] at hfault
        cases hfault
      have hget : ∀ other ∈ files, middle.get other = disk.get other :=
        fun other hm => hone.get_eq (happart.1 other hm) (htargets.2 other hm)
      have htargets' : ∀ other ∈ files, IsTarget middle other := by
        intro other hm
        obtain ⟨hname, hthere⟩ := htargets.2 other hm
        exact ⟨hname, hget other hm ▸ hthere⟩
      have happart' : files.Pairwise (Apart middle) := by
        refine happart.2.imp_of_mem fun {a b} ha hb hab => ?_
        rw [Apart, hget a ha, hget b hb]
        exact hab
      have hclears' : ∀ other ∈ files, ClearsUp middle other := fun other hm =>
        hone.clearsUp hno hfresh (htargets.2 other hm) (hget other hm) (hclears.2 other hm)
      have hfails : ∀ other ∈ files, Fails middle options.preferences wishes.checkOnly other ↔
          Fails disk options.preferences wishes.checkOnly other := fun other hm =>
        hone.fails_iff hno hfresh (htargets.2 other hm) (hget other hm) (hclears.2 other hm)
      obtain ⟨later, after, hlater, hsorts⟩ := ih (hone.filesDiffer.noLinks hno)
        (hone.hasFreshTag hfresh) htargets' hclears' happart'
      obtain ⟨notices, hall⟩ := run_sortEach_of_ok hrun hlater
      refine ⟨_, _, hall, ?_⟩
      have hsort : SortsEach options wishes (file :: files) disk after
          { later with
              unsorted := later.unsorted + if wishes.checkOnly && sorted.changed then 1 else 0
              notices } := .sort hone hnot hget hfails happart.1 hsorts
      simpa [fileOutcome] using hsort

end Runs

/-- An argument means a file that is not there, or a file fails to be sorted or to be checked. -/
def AnyFails (disk : Snapshot) (preferences : Preferences) (checkOnly : Bool) (wishes : Wishes)
    (paths : List String) : Prop :=
  (∃ path ∈ paths, IsMissing disk wishes.recursive path) ∨
    ∃ file ∈ filesOf disk wishes paths, Fails disk preferences checkOnly file

/-- Sorting changes a file that the arguments mean. -/
def AnyChanges (disk : Snapshot) (preferences : Preferences) (wishes : Wishes)
    (paths : List String) : Prop :=
  ∃ file ∈ filesOf disk wishes paths,
    ∃ sorted, sortedAt disk file preferences = .ok sorted ∧ sorted.changed = true

/-- How a run over all the files that the arguments mean ends, and what it did. -/
structure RunEnds (options : Options) (wishes : Wishes) (paths : List String)
    (disk after : Snapshot) (exit : Except Disk.Fault Exit) : Prop where
  failed_iff : exit = .ok .failed ↔
    AnyFails disk options.preferences wishes.checkOnly wishes paths
  ok_or_unsorted : ¬ AnyFails disk options.preferences wishes.checkOnly wishes paths →
    exit = .ok .ok ∨ exit = .ok .unsorted
  unsorted_iff : ¬ AnyFails disk options.preferences wishes.checkOnly wishes paths →
    (exit = .ok .unsorted ↔
      wishes.checkOnly = true ∧ AnyChanges disk options.preferences wishes paths)
  checked : wishes.checkOnly = true → after = disk
  left_eq : wishes.failFast = false ∨
      ¬ AnyFails disk options.preferences wishes.checkOnly wishes paths →
    ∀ file ∈ filesOf disk wishes paths, ¬ Fails disk options.preferences wishes.checkOnly file →
      ∀ place content mode sorted,
        CanSort disk file options.preferences place content mode sorted →
          after.item? place = some (leftOf disk wishes.checkOnly content mode sorted)
  others : ∀ place, (∀ file ∈ filesOf disk wishes paths,
    ¬ Fails disk options.preferences wishes.checkOnly file → ∀ content mode sorted,
      ¬ CanSort disk file options.preferences place content mode sorted) →
        after.item? place = disk.item? place

section WholeRuns
variable {disk : Snapshot} {options : Options} {wishes : Wishes} {paths : List String}

theorem isTarget_of_mem_filesOf {file : String} (hm : file ∈ filesOf disk wishes paths) :
    IsTarget disk file := by
  obtain ⟨targets, fault, hcollect, htargets, -⟩ := @collect_cases disk wishes paths
  rw [filesOf, hcollect] at hm
  exact htargets file hm

/-- A search that ends before its time ends the run, and nothing is sorted. -/
theorem run_sortFiles_of_fault {fault : Disk.Fault}
    (hfault : searchFault disk wishes paths = some fault) :
    ∃ result, (sortFiles options wishes paths : StateM Snapshot Result).run disk =
      (result, disk) ∧ result.exit = .error fault := by
  obtain ⟨targets, found, hcollect, -, -⟩ := @collect_cases disk wishes paths
  rw [searchFault, hcollect] at hfault
  obtain rfl : found = some fault := hfault
  rw [sortFiles, run_bind_of_eq hcollect]
  exact ⟨_, rfl, rfl⟩

theorem run_sortFiles (hno : disk.NoLinks) (hfresh : HasFreshTag disk)
    (hclears : ∀ file ∈ filesOf disk wishes paths, ClearsUp disk file)
    (hfound : searchFault disk wishes paths = none)
    (happart : (filesOf disk wishes paths).Pairwise (Apart disk)) :
    ∃ result after, (sortFiles options wishes paths : StateM Snapshot Result).run disk =
      (result, after) ∧ RunEnds options wishes paths disk after result.exit := by
  obtain ⟨targets, fault, hcollect, htargets, hmissing⟩ := @collect_cases disk wishes paths
  have hfiles : targets.files = filesOf disk wishes paths := by
    rw [filesOf, hcollect]
  rw [searchFault, hcollect] at hfound
  obtain rfl : fault = none := hfound
  rw [hfiles] at htargets
  obtain ⟨work, after, hwork, hsorts⟩ :=
    @run_sortEach disk options wishes _ hno hfresh htargets hclears happart
  have hfails : AnyFails disk options.preferences wishes.checkOnly wishes paths ↔
      0 < targets.missing ∨ 0 < work.failed := by
    rw [AnyFails, hmissing rfl, hsorts.failed_iff]
  rw [sortFiles, run_bind_of_eq hcollect]
  change ∃ result after, (if (decide (targets.missing > 0) && wishes.failFast) = true then
    pure { exit := .ok .failed, notices := targets.notices }
    else sortEach options wishes targets.files >>= _ : StateM Snapshot Result).run disk =
      (result, after) ∧ _
  by_cases hstop : (decide (targets.missing > 0) && wishes.failFast) = true
  · rw [if_pos hstop]
    rw [Bool.and_eq_true, decide_eq_true_eq] at hstop
    have hany := hfails.mpr (.inl hstop.1)
    refine ⟨_, _, rfl, ?_⟩
    exact ⟨by simp [hany], fun h => absurd hany h, fun h => absurd hany h, fun _ => rfl,
      by simp [hstop.2, hany], fun _ _ => rfl⟩
  · rw [if_neg hstop, StateT.run_bind, hfiles, hwork]
    refine ⟨_, _, rfl, ?_⟩
    simp only [hsorts.no_fault]
    have hleft : wishes.failFast = false ∨
        ¬ AnyFails disk options.preferences wishes.checkOnly wishes paths →
          wishes.failFast = false ∨ work.failed = 0 := by
      rw [hfails]
      exact Or.imp_right fun h => by omega
    have hchecked := hsorts.checked
    have hleftOf := fun h => hsorts.left_eq (hleft h)
    have hothers := hsorts.others
    by_cases hany : AnyFails disk options.preferences wishes.checkOnly wishes paths
    · have hpos : targets.missing + work.failed > 0 := by
        have := hfails.mp hany
        omega
      rw [if_pos hpos]
      exact ⟨by simp [hany], fun h => absurd hany h, fun h => absurd hany h, hchecked, hleftOf,
        hothers⟩
    · have hzero : targets.missing = 0 ∧ work.failed = 0 := by
        have := hfails.not.mp hany
        omega
      have hunsorted := hsorts.unsorted_iff hzero.2
      rw [← AnyChanges] at hunsorted
      rw [if_neg (by omega)]
      split_ifs with hpos
      · exact ⟨by simp [hany], fun _ => .inr rfl, fun _ => by simpa using hunsorted.mp hpos,
          hchecked, hleftOf, hothers⟩
      · exact ⟨by simp [hany], fun _ => .inl rfl, fun _ => by simpa using hunsorted.not.mp hpos,
          hchecked, hleftOf, hothers⟩

end WholeRuns

end ProjectOrder.Command
