import ProjectOrder.Command.Run
import ProjectOrder.Proofs.Searches

/-! Which files a run of the command line sorts, and that looking for them changes nothing. -/
namespace ProjectOrder.Bundle
open ProjectOrder.Disk ProjectOrder.Disk.Snapshot ProjectOrder.Text

/-- A path of a project file, and something is there. -/
structure IsTarget (disk : Snapshot) (path : String) : Prop where
  name_eq : Path.name path = projectFile
  isThere : ∃ place item, disk.get path = .ok (place, item)

variable {disk : Snapshot} {path : String}

/-- What a search in a directory finds are project files. A search can end before its time. -/
theorem isTarget_of_discover {root : Location} {mode : Nat} {files : List String}
    (hget : disk.get path = .ok (root, .directory mode))
    (hrun : outcome (discover path) disk = (.ok files, disk)) : ∀ file ∈ files, IsTarget disk file := by
  intro file hfile
  rw [outcome_discover hget (isOpen_of_outcome hget hrun), Prod.mk.injEq, Except.ok.injEq] at hrun
  obtain ⟨⟨way, -, rfl⟩, hthere⟩ := mem_discovered_iff.mp (hrun.1 ▸ hfile)
  exact ⟨name_below_projectFile path way, hthere⟩

end ProjectOrder.Bundle

namespace ProjectOrder.Command
open ProjectOrder.Disk ProjectOrder.Disk.Snapshot

/-- The argument is a directory that projects are looked for in. -/
structure IsSearched (disk : Snapshot) (recursive : Bool) (path : String) : Prop where
  is_recursive : recursive = true
  not_bundle : Path.endsWith Bundle.ending (Path.name path) = false
  directory : ∃ place mode, disk.get path = .ok (place, .directory mode)

/-- The argument means a project file, and there is no such file. -/
structure IsMissing (disk : Snapshot) (recursive : Bool) (path : String) : Prop where
  not_searched : ¬ IsSearched disk recursive path
  no_file : ∃ file, Bundle.resolve path = .ok file ∧
    ∀ place content mode, disk.get file ≠ .ok (place, .file content mode)

section Collection
variable {disk : Snapshot} {wishes : Wishes} {path : String}

theorem isSearched_iff {recursive : Bool} : IsSearched disk recursive path ↔
    (recursive && !Path.endsWith Bundle.ending (Path.name path) &&
      disk.kindAt path == some .directory) = true := by
  simp only [Bool.and_eq_true, Bool.not_eq_true', beq_iff_eq, kindAt_eq_directory_iff]
  constructor
  · intro h
    exact ⟨⟨h.is_recursive, h.not_bundle⟩, h.directory⟩
  · intro h
    exact ⟨h.1.1, h.1.2, h.2⟩

theorem outcome_kind? (path : String) (disk : Snapshot) :
    outcome (liftM (kind? path : StateM Snapshot (Option FileKind)) :
      ExceptT Disk.Fault (StateM Snapshot) _) disk = (.ok (disk.kindAt path), disk) := by
  rw [outcome_lift, run_kind?]

theorem resolve_eq_ok {file : String} (h : Bundle.resolve path = .ok file) :
    Path.name file = Bundle.projectFile := by
  simp only [Bundle.resolve] at h
  generalize (if Path.endsWith Bundle.ending (Path.name path) = true then
    Path.child path Bundle.projectFile else path) = found at h
  split_ifs at h with hname
  cases h
  exact hname

/-- An argument that is not searched means the project file that it resolves to, if that is there. -/
theorem outcome_targetsOf_of_not_searched (hs : ¬ IsSearched disk wishes.recursive path) :
    outcome (targetsOf wishes path) disk = (.ok (match Bundle.resolve path with
      | .error fault => { files := [], missing := 0, notices := warning wishes fault.message }
      | .ok file =>
        if disk.kindAt file = some .file then { files := [file], missing := 0, notices := [] }
        else { files := [], missing := 1, notices := [s!"ERROR: File not found: {file}"] }),
      disk) := by
  rw [targetsOf, outcome_bind, outcome_kind?]
  simp only
  rw [if_neg (isSearched_iff.not.mp hs)]
  cases Bundle.resolve path with
  | error fault => rfl
  | ok file =>
    simp only
    rw [outcome_bind, outcome_kind?]
    simp only [beq_iff_eq]
    split_ifs <;> rfl

theorem outcome_targetsOf_of_searched (hs : IsSearched disk wishes.recursive path)
    {result : Except Disk.Fault (List String)}
    (hrun : outcome (Bundle.discover path) disk = (result, disk)) :
    outcome (targetsOf wishes path) disk = (result.map fun files =>
      { files
        missing := 0
        notices := if files.isEmpty then warning wishes s!"No Xcode projects found under {path}"
          else [] }, disk) := by
  rw [targetsOf, outcome_bind, outcome_kind?]
  simp only
  rw [if_pos (isSearched_iff.mp hs), outcome_bind, hrun]
  cases result <;> rfl

/-- Each argument means project files, or counts as missing, or ends the search for files. -/
theorem targetsOf_cases (wishes : Wishes) (path : String) :
    (∃ targets, outcome (targetsOf wishes path) disk = (.ok targets, disk) ∧
      (∀ file ∈ targets.files, Bundle.IsTarget disk file) ∧
      (0 < targets.missing ↔ IsMissing disk wishes.recursive path)) ∨
    ∃ fault, outcome (targetsOf wishes path) disk = (.error fault, disk) := by
  by_cases hs : IsSearched disk wishes.recursive path
  · obtain ⟨root, mode, hget⟩ := hs.directory
    have hsame := @Bundle.outcome_discover_snd disk path
    rcases hrun : outcome (Bundle.discover path) disk with ⟨fault | files, middle⟩
    all_goals obtain rfl : middle = disk := by rwa [hrun] at hsame
    · exact .inr ⟨fault, outcome_targetsOf_of_searched hs hrun⟩
    · refine .inl ⟨_, outcome_targetsOf_of_searched hs hrun,
        Bundle.isTarget_of_discover hget hrun, ?_⟩
      exact iff_of_false (lt_irrefl 0) fun hm => hm.not_searched hs
  · refine .inl ⟨_, outcome_targetsOf_of_not_searched hs, ?_⟩
    cases hr : Bundle.resolve path with
    | error fault =>
      refine ⟨by simp, iff_of_false (lt_irrefl 0) fun hm => ?_⟩
      obtain ⟨file, hfile, -⟩ := hm.no_file
      rw [hr] at hfile
      cases hfile
    | ok file =>
      by_cases hk : disk.kindAt file = some .file
      · obtain ⟨place, content, mode, hget⟩ := kindAt_eq_file_iff.mp hk
        simp only [if_pos hk, List.mem_singleton, forall_eq]
        refine ⟨⟨resolve_eq_ok hr, place, _, hget⟩, iff_of_false (lt_irrefl 0) fun hm => ?_⟩
        obtain ⟨other, hother, hno⟩ := hm.no_file
        cases hr.symm.trans hother
        exact hno place content mode hget
      · simp only [if_neg hk]
        refine ⟨by simp, iff_of_true Nat.one_pos ⟨hs, file, hr, ?_⟩⟩
        intro place content mode hget
        exact hk (kindAt_eq_file_iff.mpr ⟨place, content, mode, hget⟩)

/-- The search for the files to sort changes nothing. It finds project files and counts the missing
ones, unless it ends before its time. -/
theorem collect_cases (wishes : Wishes) (paths : List String) :
    ∃ targets fault, (collect wishes paths : StateM Snapshot _).run disk =
        ((targets, fault), disk) ∧
      (∀ file ∈ targets.files, Bundle.IsTarget disk file) ∧
      (fault = none →
        (0 < targets.missing ↔ ∃ path ∈ paths, IsMissing disk wishes.recursive path)) := by
  induction paths with
  | nil => exact ⟨_, _, rfl, by simp, by simp⟩
  | cons path paths ih =>
    obtain ⟨here, hhere, hfiles, hmissing⟩ | ⟨fault, hfault⟩ := @targetsOf_cases disk wishes path
    · obtain ⟨later, fault, hlater, hmore, hrest⟩ := ih
      have hrun : (targetsOf wishes path :
          ExceptT Disk.Fault (StateM Snapshot) Targets).run.run disk = (.ok here, disk) := hhere
      refine ⟨{ files := here.files ++ later.files
                missing := here.missing + later.missing
                notices := here.notices ++ later.notices }, fault, ?_, ?_, ?_⟩
      · rw [collect, run_bind_of_eq hrun]
        exact run_bind_of_eq hlater
      · simp only [List.forall_mem_append]
        exact ⟨hfiles, hmore⟩
      · intro hnone
        rw [Nat.add_pos_iff_pos_or_pos, hmissing, hrest hnone, List.exists_mem_cons_iff]
    · have hrun : (targetsOf wishes path :
          ExceptT Disk.Fault (StateM Snapshot) Targets).run.run disk = (.error fault, disk) := hfault
      refine ⟨{ files := [], missing := 0, notices := [] }, some fault, ?_, by simp, by simp⟩
      rw [collect, run_bind_of_eq hrun]
      rfl

theorem targetsOf_checkOnly (wishes : Wishes) (checkOnly : Bool) (path : String) :
    (targetsOf { wishes with checkOnly } path : ExceptT Disk.Fault (StateM Snapshot) Targets) =
      targetsOf wishes path := by
  simp only [targetsOf, warning]

/-- The files that a run sorts. -/
def filesOf (disk : Snapshot) (wishes : Wishes) (paths : List String) : List String :=
  ((collect wishes paths : StateM Snapshot _).run disk).1.1.files

/-- The fault that ends the search for the files to sort, if one does. -/
def searchFault (disk : Snapshot) (wishes : Wishes) (paths : List String) : Option Disk.Fault :=
  ((collect wishes paths : StateM Snapshot _).run disk).1.2

theorem collect_cons {here : Targets} {paths : List String}
    (h : outcome (targetsOf wishes path) disk = (.ok here, disk)) :
    filesOf disk wishes (path :: paths) = here.files ++ filesOf disk wishes paths ∧
      searchFault disk wishes (path :: paths) = searchFault disk wishes paths := by
  have hhere : (targetsOf wishes path : ExceptT Disk.Fault (StateM Snapshot) Targets).run.run disk =
      (.ok here, disk) := h
  obtain ⟨targets, fault, hlater, -, -⟩ := @collect_cases disk wishes paths
  rw [filesOf, searchFault, filesOf, searchFault, collect, run_bind_of_eq hhere]
  simp only
  rw [run_bind_of_eq hlater, hlater]
  exact ⟨rfl, rfl⟩

/-- An argument that is not searched adds the project file that it resolves to, if that is there. -/
theorem collect_cons_file {file : String} {paths : List String}
    (hs : ¬ IsSearched disk wishes.recursive path) (hr : Bundle.resolve path = .ok file) :
    filesOf disk wishes (path :: paths) =
        (if disk.kindAt file = some .file then [file] else []) ++ filesOf disk wishes paths ∧
      searchFault disk wishes (path :: paths) = searchFault disk wishes paths := by
  have hhere := outcome_targetsOf_of_not_searched hs
  simp only [hr] at hhere
  split_ifs at hhere ⊢ <;> exact collect_cons hhere

/-- What is looked for does not depend on what is done with it. -/
theorem collect_checkOnly (wishes : Wishes) (checkOnly : Bool) (paths : List String) :
    (collect { wishes with checkOnly } paths : StateM Snapshot _) = collect wishes paths := by
  induction paths with
  | nil => rfl
  | cons path paths ih =>
    rw [collect, collect, ih, targetsOf_checkOnly]

end Collection
end ProjectOrder.Command
