import ProjectOrder.Proofs.Batch
import ProjectOrder.Proofs.Requests

/-! What a run that only checks tells of one that sorts. -/
namespace ProjectOrder.Command
open ProjectOrder.Bundle ProjectOrder.Disk ProjectOrder.Disk.Snapshot ProjectOrder.Document
open ProjectOrder.Text

/-- How a run that sorts, and what it leaves of the disk, compare with a run on the same disk and
files that is to check them instead. -/
structure ChecksWhatSorts (disk : Snapshot) (preferences : Preferences) (wishes : Wishes)
    (paths : List String) (sorting checking : Result) (after untouched : Snapshot) : Prop where
  checking_keeps : untouched = disk
  sorting_failed_iff : sorting.exit = .ok .failed ↔ AnyFails disk preferences false wishes paths
  checking_failed_iff : checking.exit = .ok .failed ↔ AnyFails disk preferences true wishes paths
  /-- A file fails in both runs, or it would have to be replaced and cannot be. -/
  fails_iff : ∀ file ∈ filesOf disk wishes paths, Fails disk preferences false file ↔
    Fails disk preferences true file ∨ Stuck disk preferences file
  not_fails_iff : ∀ file ∈ filesOf disk wishes paths, ¬ Fails disk preferences true file ↔
    ∃ place content mode sorted, CanSort disk file preferences place content mode sorted
  sorting_ok : ¬ AnyFails disk preferences false wishes paths → sorting.exit = .ok .ok
  checking_unsorted_iff : ¬ AnyFails disk preferences false wishes paths →
    (checking.exit = .ok .unsorted ↔ ∃ place, after.item? place ≠ disk.item? place)
  checking_ok_iff : ¬ AnyFails disk preferences false wishes paths →
    (checking.exit = .ok .ok ↔ ∀ place, after.item? place = disk.item? place)
  /-- The check tells of files that are not in order also if they cannot be replaced. -/
  checking_tells_changes : ¬ AnyFails disk preferences true wishes paths →
    (checking.exit = .ok .unsorted ↔ AnyChanges disk preferences wishes paths)
  /-- Nothing but `failFast` keeps a file that does not fail from being sorted. -/
  holds_sorted : wishes.failFast = false ∨ ¬ AnyFails disk preferences false wishes paths →
    ∀ file ∈ filesOf disk wishes paths, ¬ Fails disk preferences false file →
      ∃ place content mode sorted bytes bits,
        CanSort disk file preferences place content mode sorted ∧
          after.item? place = some (.file bytes bits) ∧ Utf8.decode? bytes = some sorted.text
  others : ∀ place, (∀ file ∈ filesOf disk wishes paths, ¬ Fails disk preferences false file →
    ∀ item, disk.get file ≠ .ok (place, item)) → after.item? place = disk.item? place

section Comparison
variable {disk after : Snapshot} {options : Options} {preferences : Preferences} {wishes : Wishes}
  {paths : List String} {exit : Except Disk.Fault Exit}

/-- Where nothing fails, something is rewritten exactly if sorting changes one of the files. -/
theorem RunEnds.exists_rewritten_iff (h : RunEnds options wishes paths disk after exit)
    (hsorts : wishes.checkOnly = false)
    (hnone : ¬ AnyFails disk options.preferences false wishes paths) :
    (∃ place, after.item? place ≠ disk.item? place) ↔
      AnyChanges disk options.preferences wishes paths := by
  have hnot : ∀ file ∈ filesOf disk wishes paths, ¬ Fails disk options.preferences false file :=
    fun file hm hf => hnone (.inr ⟨file, hm, hf⟩)
  have hleft := h.left_eq (.inr (by rwa [hsorts]))
  have hothers := h.others
  rw [hsorts] at hleft hothers
  constructor
  · intro hplace
    obtain ⟨place, hne⟩ := hplace
    by_contra hall
    apply hne
    by_cases hcan : ∃ file ∈ filesOf disk wishes paths, ∃ content mode sorted,
        CanSort disk file options.preferences place content mode sorted
    · obtain ⟨file, hm, content, mode, sorted, hc⟩ := hcan
      have hchanged : sorted.changed ≠ true := fun hs =>
        hall ⟨file, hm, sorted, sortedAt_eq_ok_iff.mpr ⟨_, _, _, hc⟩, hs⟩
      rw [hleft file hm (hnot file hm) place content mode sorted hc, hc.item?_eq]
      exact congrArg some (not_not.mp (hc.leftOf_ne_iff.not.mpr hchanged))
    · exact hothers place fun file hm _ content mode sorted hc =>
        hcan ⟨file, hm, content, mode, sorted, hc⟩
  · intro hchanged
    obtain ⟨file, hm, sorted, hs, hchanged⟩ := hchanged
    obtain ⟨place, content, mode, hc⟩ := sortedAt_eq_ok_iff.mp hs
    refine ⟨place, ?_⟩
    rw [hleft file hm (hnot file hm) place content mode sorted hc, hc.item?_eq, ne_eq,
      Option.some.injEq]
    exact hc.leftOf_ne_iff.mpr hchanged

theorem filesOf_checkOnly (disk : Snapshot) (wishes : Wishes) (checkOnly : Bool)
    (paths : List String) :
    filesOf disk { wishes with checkOnly } paths = filesOf disk wishes paths := by
  rw [filesOf, collect_checkOnly, filesOf]

theorem searchFault_checkOnly (disk : Snapshot) (wishes : Wishes) (checkOnly : Bool)
    (paths : List String) :
    searchFault disk { wishes with checkOnly } paths = searchFault disk wishes paths := by
  rw [searchFault, collect_checkOnly, searchFault]

theorem anyFails_checkOnly (disk : Snapshot) (wishes : Wishes) (checkOnly also : Bool)
    (paths : List String) :
    AnyFails disk preferences also { wishes with checkOnly } paths ↔
      AnyFails disk preferences also wishes paths := by
  rw [AnyFails, filesOf_checkOnly, AnyFails]

theorem anyChanges_checkOnly (disk : Snapshot) (wishes : Wishes) (checkOnly : Bool)
    (paths : List String) :
    AnyChanges disk preferences { wishes with checkOnly } paths ↔
      AnyChanges disk preferences wishes paths := by
  rw [AnyChanges, filesOf_checkOnly, AnyChanges]

section Failures
variable {file : String} (hno : disk.NoLinks) (hfresh : HasFreshTag disk)
  (hfile : IsTarget disk file) (hclears : ClearsUp disk file)
include hno hfresh hfile hclears

theorem fails_check_iff : Fails disk preferences true file ↔
    ∃ fault, sortedAt disk file preferences = .error fault := by
  rw [fails_iff hno hfresh hfile.name_eq hclears]
  simp

theorem fails_sort_iff : Fails disk preferences false file ↔
    Fails disk preferences true file ∨ Stuck disk preferences file := by
  rw [fails_check_iff hno hfresh hfile hclears, fails_iff hno hfresh hfile.name_eq hclears]
  simp

theorem not_fails_check_iff : ¬ Fails disk preferences true file ↔
    ∃ place content mode sorted, CanSort disk file preferences place content mode sorted := by
  rw [fails_check_iff hno hfresh hfile hclears]
  cases hs : sortedAt disk file preferences with
  | error fault =>
    refine iff_of_false (fun h => h ⟨fault, rfl⟩) fun h => ?_
    obtain ⟨place, content, mode, sorted, hc⟩ := h
    rw [sortedAt_eq_ok_iff.mpr ⟨place, content, mode, hc⟩] at hs
    cases hs
  | ok sorted =>
    obtain ⟨place, content, mode, hc⟩ := sortedAt_eq_ok_iff.mp hs
    exact iff_of_true (by simp) ⟨place, content, mode, sorted, hc⟩

end Failures

theorem RunEnds.compare {sorting checking : Result} {untouched : Snapshot}
    (hno : disk.NoLinks) (hfresh : HasFreshTag disk)
    (hclears : ∀ file ∈ filesOf disk wishes paths, ClearsUp disk file)
    (hsorts : wishes.checkOnly = false)
    (hs : RunEnds options wishes paths disk after sorting.exit)
    (hc : RunEnds options { wishes with checkOnly := true } paths disk untouched checking.exit) :
    ChecksWhatSorts disk options.preferences wishes paths sorting checking after untouched := by
  have hrewritten := hs.exists_rewritten_iff hsorts
  obtain ⟨hsfailed, hsok, hsunsorted, -, hleft, hothers⟩ := hs
  obtain ⟨hcfailed, hcok, hcunsorted, hkeeps, -, -⟩ := hc
  simp only [hsorts, Bool.false_eq_true, false_and, iff_false] at hsfailed hsok hsunsorted hleft hothers
  simp only [anyFails_checkOnly, anyChanges_checkOnly, true_and] at hcfailed hcok hcunsorted
  have hfails : ∀ file ∈ filesOf disk wishes paths, Fails disk options.preferences false file ↔
      Fails disk options.preferences true file ∨ Stuck disk options.preferences file :=
    fun file hm => fails_sort_iff hno hfresh (isTarget_of_mem_filesOf hm) (hclears file hm)
  have hcan : ∀ file ∈ filesOf disk wishes paths, ¬ Fails disk options.preferences true file ↔
      ∃ place content mode sorted,
        CanSort disk file options.preferences place content mode sorted :=
    fun file hm => not_fails_check_iff hno hfresh (isTarget_of_mem_filesOf hm) (hclears file hm)
  have hfewer : ¬ AnyFails disk options.preferences false wishes paths →
      ¬ AnyFails disk options.preferences true wishes paths := by
    intro hnone hany
    refine hnone (hany.imp_right fun h => ?_)
    obtain ⟨file, hm, hf⟩ := h
    exact ⟨file, hm, (hfails file hm).mpr (.inl hf)⟩
  have hunsorted : ¬ AnyFails disk options.preferences false wishes paths →
      (checking.exit = .ok .unsorted ↔ ∃ place, after.item? place ≠ disk.item? place) := by
    intro hnone
    rw [hrewritten hnone, hcunsorted (hfewer hnone)]
  constructor
  · exact hkeeps rfl
  · exact hsfailed
  · exact hcfailed
  · exact hfails
  · exact hcan
  · exact fun hnone => (hsok hnone).resolve_right (hsunsorted hnone)
  · exact hunsorted
  · intro hnone
    have hsame : (∀ place, after.item? place = disk.item? place) ↔
        ¬ checking.exit = .ok .unsorted := by
      rw [hunsorted hnone]
      push Not
      rfl
    rw [hsame]
    rcases hcok (hfewer hnone) with he | he <;> simp [he]
  · exact hcunsorted
  · intro hfast file hm hf
    have hchecks : ¬ Fails disk options.preferences true file :=
      fun h => hf ((hfails file hm).mpr (.inl h))
    obtain ⟨place, content, mode, sorted, hc⟩ := (hcan file hm).mp hchecks
    obtain ⟨bytes, bits, hbytes, hdecode⟩ := hc.exists_leftOf
    have hitem := hleft hfast file hm hf place content mode sorted hc
    rw [hbytes] at hitem
    exact ⟨place, content, mode, sorted, bytes, bits, hc, hitem, hdecode⟩
  · intro place hnone
    refine hothers place fun file hm hf content mode sorted hc => ?_
    exact hnone file hm hf _ hc.get_eq

theorem run_eq_sortFiles {arguments : List String} {configured : Option String}
    (hrequest : Request.ofArguments arguments = .ok (.sortFiles paths wishes))
    (hoptions : (outcome (optionsFor wishes configured) disk).1 = .ok options)
    (input : StateM Snapshot (List UInt8)) :
    (run arguments configured input).run disk =
      (sortFiles options wishes paths : StateM Snapshot Result).run disk := by
  rw [run, hrequest]
  exact run_withOptions _ hoptions

/-- A run that checks tells what a run that sorts does. Each of the files comes out of that run as if
it were the only one, as no two of them are in one place. A search for files that ends before its time
ends both runs. -/
theorem check_agrees_with_sort (hno : disk.NoLinks) (hfresh : HasFreshTag disk)
    {front back : List String} {seen : Progress} (hfront : scan {} front = .ok seen)
    (hrequest : Request.ofArguments (front ++ back) = .ok (.sortFiles paths wishes))
    (hsorts : wishes.checkOnly = false) {configured : Option String}
    (hoptions : (outcome (optionsFor wishes configured) disk).1 = .ok options)
    (hclears : ∀ file ∈ filesOf disk wishes paths, ClearsUp disk file)
    (happart : (filesOf disk wishes paths).Pairwise (Apart disk))
    (input : StateM Snapshot (List UInt8)) :
    ∃ sorting after checking untouched,
      (run (front ++ back) configured input).run disk = (sorting, after) ∧
      (run (front ++ "--check" :: back) configured input).run disk = (checking, untouched) ∧
      match searchFault disk wishes paths with
      | some fault => sorting.exit = .error fault ∧ checking.exit = .error fault ∧
          after = disk ∧ untouched = disk
      | none =>
        ChecksWhatSorts disk options.preferences wishes paths sorting checking after untouched := by
  have hchecks := ofArguments_check hfront hrequest
  rw [run_eq_sortFiles hrequest hoptions, run_eq_sortFiles hchecks hoptions]
  cases hfound : searchFault disk wishes paths with
  | some fault =>
    obtain ⟨sorting, hsorting, hs⟩ := @run_sortFiles_of_fault disk options wishes paths fault hfound
    rw [← searchFault_checkOnly disk wishes true paths] at hfound
    obtain ⟨checking, hchecking, hc⟩ :=
      @run_sortFiles_of_fault disk options { wishes with checkOnly := true } paths fault hfound
    exact ⟨sorting, disk, checking, disk, hsorting, hchecking, hs, hc, rfl, rfl⟩
  | none =>
    obtain ⟨sorting, after, hsorting, hs⟩ :=
      @run_sortFiles disk options wishes paths hno hfresh hclears hfound happart
    have hfiles := filesOf_checkOnly disk wishes true paths
    rw [← searchFault_checkOnly disk wishes true paths] at hfound
    obtain ⟨checking, untouched, hchecking, hc⟩ :=
      @run_sortFiles disk options { wishes with checkOnly := true } paths hno hfresh
        (hfiles.symm ▸ hclears) hfound (hfiles.symm ▸ happart)
    exact ⟨sorting, after, checking, untouched, hsorting, hchecking,
      hs.compare hno hfresh hclears hsorts hc⟩

end Comparison

/-- Two bundles with the same project, in one of which no file can be made, and a directory with the
name of a project file. -/
def bundlesDisk : Snapshot :=
  { items := [
      (["A.xcodeproj"], .directory 0o755),
      (["A.xcodeproj", projectFile], .file (Utf8.encode (unlines swappedFiles.lines)) 0o644),
      (["B.xcodeproj"], .directory 0o555),
      (["B.xcodeproj", projectFile], .file (Utf8.encode (unlines swappedFiles.lines)) 0o644),
      ([projectFile], .directory 0o755)]
    workingDirectory := []
    umask := 0o022
    temporaryTag := "tag" }

/-- The bundles on that disk, and one that is not there. -/
def bundlePaths : List String :=
  ["A.xcodeproj", "B.xcodeproj", "C.xcodeproj"]

section Bundles

theorem resolve_firstBundle : Bundle.resolve "A.xcodeproj" = .ok "A.xcodeproj/project.pbxproj" := by
  decide

theorem resolve_secondBundle :
    Bundle.resolve "B.xcodeproj" = .ok "B.xcodeproj/project.pbxproj" := by
  decide

theorem resolve_thirdBundle : Bundle.resolve "C.xcodeproj" = .ok "C.xcodeproj/project.pbxproj" := by
  decide

theorem noLinks_bundlesDisk : bundlesDisk.NoLinks := by
  intro place target h
  by_cases hp : place = []
  · simp [hp, item?] at h
  · simpa [bundlesDisk] using mem_of_item? hp h

theorem hasFreshTag_bundlesDisk : HasFreshTag bundlesDisk := by
  have hname : temporaryName bundlesDisk.temporaryTag projectFile = ".project.pbxproj.tag.tmp" := by
    change temporaryName "tag" projectFile = _
    decide
  constructor
  · rw [hname]
    exact ⟨⟨by decide, by decide, by decide, by decide⟩, by decide, by decide⟩
  · rw [hname]
    exact item?_concat_eq_none (by simp [bundlesDisk, projectFile])

theorem optionsFor_bundlesDisk {wishes : Wishes} (hs : wishes.settingsPath = none)
    (hi : wishes.ignoreCase = none) :
    (outcome (optionsFor wishes none) bundlesDisk).1 = .ok standardOptions := by
  have hitem : bundlesDisk.item? [Settings.defaultFile] = none := by
    simp [bundlesDisk, item?, List.lookup_cons, Settings.defaultFile, projectFile]
  have hload := outcome_load_at_root rfl (by decide) hitem
  rw [optionsFor, hs, hi, outcome_bind_of_eq hload, outcome_ofExcept, options_builtIn,
    resolve_default]
  rfl

/-- The project in a bundle is found by the path that its bundle resolves to. -/
theorem get_projectFile {name : String} {mode : Nat} (hn : IsFileName name)
    (hsteps : steps name = [name]) (habsolute : Path.isAbsolute name = false)
    (hdirectory : bundlesDisk.item? [name] = some (.directory mode))
    (hmode : isSearchable mode = true) {item : Item}
    (hitem : bundlesDisk.item? [name, projectFile] = some item) :
    bundlesDisk.get (Path.child name projectFile) = .ok ([name, projectFile], item) := by
  have hlead : Leads bundlesDisk true maxLinks (bundlesDisk.start name) (steps name) [name] := by
    rw [hsteps, start, habsolute]
    exact .down (by decide) hn.toIsName hdirectory (by simp) .here
  have hpath : Path.isPath name = true := by simpa [Path.isPath] using hn.no_nul
  have hget := hlead.get hpath hn.ne_empty hdirectory
  have hfind := @find_child _ true _ _ _ _ noLinks_bundlesDisk hget hmode isFileName_projectFile
  rw [get_eq_ok_iff, hfind]
  exact congrArg (fun item => Except.ok ([name, projectFile], item)) hitem

theorem get_firstProject : bundlesDisk.get "A.xcodeproj/project.pbxproj" =
    .ok (["A.xcodeproj", projectFile],
      .file (Utf8.encode (unlines swappedFiles.lines)) 0o644) := by
  have hpath : Path.child "A.xcodeproj" projectFile = "A.xcodeproj/project.pbxproj" := by decide
  rw [← hpath]
  refine @get_projectFile "A.xcodeproj" 0o755 ?_ (by decide) (by decide) ?_ (by decide) _ ?_
  · exact ⟨⟨by decide, by decide, by decide, by decide⟩, by decide, by decide⟩
  · simp [bundlesDisk, item?]
  · simp [bundlesDisk, item?, List.lookup_cons]

theorem get_secondProject : bundlesDisk.get "B.xcodeproj/project.pbxproj" =
    .ok (["B.xcodeproj", projectFile],
      .file (Utf8.encode (unlines swappedFiles.lines)) 0o644) := by
  have hpath : Path.child "B.xcodeproj" projectFile = "B.xcodeproj/project.pbxproj" := by decide
  rw [← hpath]
  refine @get_projectFile "B.xcodeproj" 0o555 ?_ (by decide) (by decide) ?_ (by decide) _ ?_
  · exact ⟨⟨by decide, by decide, by decide, by decide⟩, by decide, by decide⟩
  · simp [bundlesDisk, item?, List.lookup_cons]
  · simp [bundlesDisk, item?, List.lookup_cons]

theorem kindAt_thirdProject : bundlesDisk.kindAt "C.xcodeproj/project.pbxproj" = none := by
  have hpath : Path.isPath "C.xcodeproj/project.pbxproj" = true := by decide
  have habsolute : Path.isAbsolute "C.xcodeproj/project.pbxproj" = false := by decide
  have hsteps : steps "C.xcodeproj/project.pbxproj" = ["C.xcodeproj", projectFile] := by
    decide
  have hitem : bundlesDisk.item? ([] ++ ["C.xcodeproj"]) = none := by
    simp [bundlesDisk, item?, List.lookup_cons, projectFile]
  have hwalk : bundlesDisk.walk true maxLinks [] ["C.xcodeproj", projectFile] =
      .error .notFound := by
    rw [walk_name (by decide) ⟨by decide, by decide, by decide, by decide⟩, hitem]
    simp
  have hfind : bundlesDisk.find true "C.xcodeproj/project.pbxproj" = .error .notFound := by
    simp only [find, hpath, hsteps, habsolute]
    exact hwalk
  rw [kindAt, status, Snapshot.get, hfind]

theorem not_isSearched_of_plain {recursive : Bool} {path : String} (h : recursive = false) :
    ¬ IsSearched bundlesDisk recursive path := by
  intro hs
  rw [h] at hs
  exact Bool.false_ne_true hs.is_recursive

section Plain
variable {wishes : Wishes} (h : wishes.recursive = false)
include h

theorem filesOf_second : filesOf bundlesDisk wishes ["B.xcodeproj"] =
      ["B.xcodeproj/project.pbxproj"] ∧ searchFault bundlesDisk wishes ["B.xcodeproj"] = none := by
  obtain ⟨hfiles, hfound⟩ :=
    @collect_cons_file bundlesDisk wishes _ _ [] (not_isSearched_of_plain h) resolve_secondBundle
  rw [if_pos (kindAt_eq_file_iff.mpr ⟨_, _, _, get_secondProject⟩)] at hfiles
  exact ⟨hfiles, hfound⟩

/-- Two of the three bundles are there. -/
theorem filesOf_bundlesDisk : filesOf bundlesDisk wishes bundlePaths =
        ["A.xcodeproj/project.pbxproj", "B.xcodeproj/project.pbxproj"] ∧
      searchFault bundlesDisk wishes bundlePaths = none := by
  obtain ⟨hfirst, hnone⟩ := @collect_cons_file bundlesDisk wishes _ _
    ["B.xcodeproj", "C.xcodeproj"] (not_isSearched_of_plain h) resolve_firstBundle
  obtain ⟨hsecond, hnone'⟩ := @collect_cons_file bundlesDisk wishes _ _ ["C.xcodeproj"]
    (not_isSearched_of_plain h) resolve_secondBundle
  obtain ⟨hthird, hnone''⟩ := @collect_cons_file bundlesDisk wishes _ _ []
    (not_isSearched_of_plain h) resolve_thirdBundle
  rw [if_pos (kindAt_eq_file_iff.mpr ⟨_, _, _, get_firstProject⟩), hsecond,
    if_pos (kindAt_eq_file_iff.mpr ⟨_, _, _, get_secondProject⟩), hthird,
    kindAt_thirdProject] at hfirst
  exact ⟨hfirst, hnone.trans (hnone'.trans hnone'')⟩

end Plain

theorem get_directory :
    bundlesDisk.get projectFile = .ok ([projectFile], .directory 0o755) := by
  have hitem : bundlesDisk.item? [projectFile] = some (.directory 0o755) := by
    simp [bundlesDisk, item?, List.lookup_cons, projectFile]
  have hsteps : steps projectFile = [projectFile] := by decide
  have hlead : Leads bundlesDisk true maxLinks (bundlesDisk.start projectFile) (steps projectFile)
      [projectFile] := by
    rw [hsteps]
    exact .down (by decide) isFileName_projectFile.toIsName hitem (by simp) .here
  exact hlead.get (by decide) isFileName_projectFile.ne_empty hitem

/-- There is nothing in the directory, so that nothing is found there. -/
theorem filesOf_directory {wishes : Wishes} (h : wishes.recursive = true) :
    IsSearched bundlesDisk wishes.recursive projectFile ∧
      filesOf bundlesDisk wishes [projectFile] = [] ∧
        searchFault bundlesDisk wishes [projectFile] = none := by
  have hs : IsSearched bundlesDisk wishes.recursive projectFile :=
    ⟨h, by decide, _, _, get_directory⟩
  have hnames : bundlesDisk.directoryNames [projectFile] = [] := by decide
  have hways : ∀ enter, bundlesDisk.waysBelow enter [projectFile] = [] := by
    intro enter
    rw [waysBelow_eq, hnames]
    rfl
  have hsearched : searchedNames bundlesDisk [projectFile] = [] := by
    simp [searchedNames, hnames]
  have hopen : IsOpen bundlesDisk projectFile [projectFile] := by
    refine ⟨firstClosed?_eq_none_iff.mpr ⟨by decide, ?_⟩, ?_⟩
    · simp [hways]
    · simp [hsearched]
  have hrun := outcome_discover get_directory hopen
  have hnone : discovered bundlesDisk projectFile [projectFile] = [] := by
    simp [discovered, waysToBundles, hsearched]
  obtain ⟨hfiles, hfound⟩ := @collect_cons bundlesDisk wishes projectFile _ []
    (outcome_targetsOf_of_searched hs hrun)
  rw [hnone] at hfiles
  exact ⟨hs, hfiles, hfound⟩

theorem apart_bundlesDisk : Apart bundlesDisk "A.xcodeproj/project.pbxproj"
    "B.xcodeproj/project.pbxproj" := by
  intro place item hfirst found hsecond
  rw [get_firstProject, Except.ok.injEq, Prod.mk.injEq] at hfirst
  rw [get_secondProject, Except.ok.injEq, Prod.mk.injEq] at hsecond
  exact absurd (hfirst.1.trans hsecond.1.symm) (by decide)

theorem isMissing_thirdProject : IsMissing bundlesDisk false "C.xcodeproj" := by
  refine ⟨not_isSearched_of_plain rfl, "C.xcodeproj/project.pbxproj", resolve_thirdBundle, ?_⟩
  intro place content mode hget
  have hfile := kindAt_eq_file_iff.mpr ⟨place, content, mode, hget⟩
  rw [kindAt_thirdProject] at hfile
  cases hfile

theorem not_fails_firstProject : ¬ Fails bundlesDisk standardOptions.preferences false
    "A.xcodeproj/project.pbxproj" := by
  obtain ⟨sorted, -, -, hcan⟩ := canSort_swappedFiles get_firstProject (by decide)
  rw [fails_iff noLinks_bundlesDisk hasFreshTag_bundlesDisk (by decide)
    (clearsUp_of_no_troubles rfl _), sortedAt_eq_ok_iff.mpr ⟨_, _, _, hcan⟩, hcan.stuck_iff]
  have hreplaceable : Replaceable bundlesDisk ["A.xcodeproj", projectFile] :=
    ⟨grants_eq_true_iff.mpr ⟨0o755, by simp [bundlesDisk, item?], by decide⟩, fun _ _ => rfl⟩
  simp [hreplaceable]

theorem stuck_secondProject : Stuck bundlesDisk standardOptions.preferences
    "B.xcodeproj/project.pbxproj" := by
  obtain ⟨sorted, hchanged, -, hcan⟩ := canSort_swappedFiles get_secondProject (by decide)
  refine hcan.stuck_iff.mpr ⟨hchanged, fun h => ?_⟩
  have hitem : bundlesDisk.item? ["B.xcodeproj"] = some (.directory 0o555) := by
    simp [bundlesDisk, item?, List.lookup_cons]
  obtain ⟨mode, hmode, hwritable⟩ := grants_eq_true_iff.mp h.granted
  cases hitem.symm.trans hmode
  exact absurd hwritable (by decide)

theorem fails_secondProject : Fails bundlesDisk standardOptions.preferences false
    "B.xcodeproj/project.pbxproj" := by
  rw [fails_iff noLinks_bundlesDisk hasFreshTag_bundlesDisk (by decide)
    (clearsUp_of_no_troubles rfl _)]
  exact .inr ⟨rfl, stuck_secondProject⟩

end Bundles

/-- Of three bundles the first is sorted, the second cannot be written and the third is not there. The
check fails, too, as one is missing. -/
theorem check_agrees_with_sort_of_bundles :
    bundlesDisk.NoLinks ∧ HasFreshTag bundlesDisk ∧ scan {} [] = .ok {} ∧
    Request.ofArguments ([] ++ bundlePaths) = .ok (.sortFiles bundlePaths {}) ∧
    (outcome (optionsFor {} none) bundlesDisk).1 = .ok standardOptions ∧
    (∀ file ∈ filesOf bundlesDisk {} bundlePaths, ClearsUp bundlesDisk file) ∧
    (filesOf bundlesDisk {} bundlePaths).Pairwise (Apart bundlesDisk) ∧
    ∃ sorting after checking,
      (run ([] ++ bundlePaths) none (pure [] : StateM Snapshot _)).run bundlesDisk =
        (sorting, after) ∧
      (run ([] ++ "--check" :: bundlePaths) none (pure [] : StateM Snapshot _)).run bundlesDisk =
        (checking, bundlesDisk) ∧
      sorting.exit = .ok .failed ∧ checking.exit = .ok .failed ∧
      (∃ bytes bits, after.item? ["A.xcodeproj", projectFile] = some (.file bytes bits) ∧
        Utf8.decode? bytes =
          some (unlines (swappedFiles.mapBody fun _ => List.reverse).lines)) ∧
      after.item? ["B.xcodeproj", projectFile] = bundlesDisk.item? ["B.xcodeproj", projectFile] := by
  have hrequest : Request.ofArguments ([] ++ bundlePaths) = .ok (.sortFiles bundlePaths {}) := by
    decide
  have hoptions : (outcome (optionsFor {} none) bundlesDisk).1 = .ok standardOptions :=
    optionsFor_bundlesDisk rfl rfl
  obtain ⟨hfiles, hfound⟩ := @filesOf_bundlesDisk {} rfl
  have hclears : ∀ file ∈ filesOf bundlesDisk {} bundlePaths, ClearsUp bundlesDisk file :=
    fun file _ => clearsUp_of_no_troubles rfl file
  have happart : (filesOf bundlesDisk {} bundlePaths).Pairwise (Apart bundlesDisk) := by
    simpa [hfiles] using apart_bundlesDisk
  refine ⟨noLinks_bundlesDisk, hasFreshTag_bundlesDisk, rfl, hrequest, hoptions, hclears, happart, ?_⟩
  obtain ⟨sorting, after, checking, untouched, hsorting, hchecking, hcompare⟩ :=
    check_agrees_with_sort noLinks_bundlesDisk hasFreshTag_bundlesDisk rfl hrequest rfl hoptions
      hclears happart (pure [])
  rw [hfound] at hcompare
  rw [hcompare.checking_keeps] at hchecking
  have hmissing : ∃ path ∈ bundlePaths, IsMissing bundlesDisk false path :=
    ⟨"C.xcodeproj", by simp [bundlePaths], isMissing_thirdProject⟩
  refine ⟨sorting, after, checking, hsorting, hchecking,
    hcompare.sorting_failed_iff.mpr (.inl hmissing),
    hcompare.checking_failed_iff.mpr (.inl hmissing), ?_, ?_⟩
  · obtain ⟨place, content, mode, sorted, bytes, bits, hcan, hitem, hdecode⟩ :=
      hcompare.holds_sorted (.inl rfl) "A.xcodeproj/project.pbxproj" (by simp [hfiles])
        not_fails_firstProject
    obtain ⟨expected, -, htext, hexpected⟩ := canSort_swappedFiles get_firstProject (by decide)
    obtain ⟨rfl, -, -, rfl⟩ := hexpected.unique hcan
    exact ⟨bytes, bits, hitem, htext ▸ hdecode⟩
  · refine hcompare.others _ fun file hm hnot item hget => ?_
    simp only [hfiles, List.mem_cons, List.not_mem_nil, or_false] at hm
    rcases hm with rfl | rfl
    · rw [get_firstProject, Except.ok.injEq, Prod.mk.injEq] at hget
      exact absurd hget.1 (by decide)
    · exact hnot fails_secondProject

/-- A run over the bundle that cannot be written, and one over the directory with the name of a
project file. -/
theorem run_bundlesDisk {arguments : List String} {wishes : Wishes} {path : String}
    (hrequest : Request.ofArguments arguments = .ok (.sortFiles [path] wishes))
    (hs : wishes.settingsPath = none) (hi : wishes.ignoreCase = none)
    (hpath : path = "B.xcodeproj" ∧ wishes.recursive = false ∨
      path = projectFile ∧ wishes.recursive = true) :
    ∃ result after, (run arguments none (pure [] : StateM Snapshot _)).run bundlesDisk =
      (result, after) ∧ RunEnds standardOptions wishes [path] bundlesDisk after result.exit := by
  have hone : searchFault bundlesDisk wishes [path] = none ∧
      (filesOf bundlesDisk wishes [path]).Pairwise (Apart bundlesDisk) := by
    rcases hpath with ⟨rfl, hplain⟩ | ⟨rfl, hrecursive⟩
    · obtain ⟨hfiles, hfound⟩ := filesOf_second hplain
      exact ⟨hfound, by rw [hfiles]; exact List.pairwise_singleton _ _⟩
    · obtain ⟨-, hfiles, hfound⟩ := filesOf_directory hrecursive
      exact ⟨hfound, by rw [hfiles]; exact List.Pairwise.nil⟩
  rw [run_eq_sortFiles hrequest (optionsFor_bundlesDisk hs hi)]
  exact run_sortFiles noLinks_bundlesDisk hasFreshTag_bundlesDisk
    (fun file _ => clearsUp_of_no_troubles rfl file) hone.1 hone.2

theorem not_fails_check_secondProject :
    ¬ Fails bundlesDisk standardOptions.preferences true "B.xcodeproj/project.pbxproj" := by
  obtain ⟨sorted, -, -, hcan⟩ := canSort_swappedFiles get_secondProject (by decide)
  have htarget : IsTarget bundlesDisk "B.xcodeproj/project.pbxproj" :=
    ⟨by decide, _, _, get_secondProject⟩
  exact (not_fails_check_iff noLinks_bundlesDisk hasFreshTag_bundlesDisk htarget
    (clearsUp_of_no_troubles rfl _)).mpr ⟨_, _, _, _, hcan⟩

theorem anyChanges_secondProject {wishes : Wishes} (hplain : wishes.recursive = false) :
    AnyChanges bundlesDisk standardOptions.preferences wishes ["B.xcodeproj"] := by
  obtain ⟨sorted, hchanged, -, hcan⟩ := canSort_swappedFiles get_secondProject (by decide)
  have hsorted := sortedAt_eq_ok_iff.mpr ⟨_, _, _, hcan⟩
  refine ⟨"B.xcodeproj/project.pbxproj", ?_, sorted, hsorted, hchanged⟩
  rw [(filesOf_second hplain).1]
  exact List.mem_singleton_self _

theorem not_isMissing_secondProject {recursive : Bool} :
    ¬ IsMissing bundlesDisk recursive "B.xcodeproj" := by
  intro hmissing
  obtain ⟨file, hfile, hnone⟩ := hmissing.no_file
  obtain rfl := Except.ok.inj (resolve_secondBundle.symm.trans hfile)
  exact hnone ["B.xcodeproj", projectFile] _ 0o644 get_secondProject

theorem not_anyFails_check_secondProject {wishes : Wishes} (hplain : wishes.recursive = false) :
    ¬ AnyFails bundlesDisk standardOptions.preferences true wishes ["B.xcodeproj"] := by
  intro hany
  rcases hany with hmissing | hfails
  · obtain ⟨path, hm, hmissing⟩ := hmissing
    rw [List.mem_singleton.mp hm] at hmissing
    exact not_isMissing_secondProject hmissing
  · obtain ⟨file, hm, hfails⟩ := hfails
    rw [(filesOf_second hplain).1, List.mem_singleton] at hm
    rw [hm] at hfails
    exact not_fails_check_secondProject hfails

/-- The check of a bundle that cannot be written finds no failure. -/
theorem checks_secondProject {wishes : Wishes} {after : Snapshot} {exit : Except Disk.Fault Exit}
    (h : RunEnds standardOptions wishes ["B.xcodeproj"] bundlesDisk after exit)
    (hplain : wishes.recursive = false) (hchecks : wishes.checkOnly = true) :
    exit = .ok .unsorted := by
  have hnone : ¬ AnyFails bundlesDisk standardOptions.preferences wishes.checkOnly wishes
      ["B.xcodeproj"] := by
    rw [hchecks]
    exact not_anyFails_check_secondProject hplain
  exact (h.unsorted_iff hnone).mpr ⟨hchecks, anyChanges_secondProject hplain⟩
/-- A search that finds nothing ends well. -/
theorem searches_directory {wishes : Wishes} {after : Snapshot} {exit : Except Disk.Fault Exit}
    (h : RunEnds standardOptions wishes [projectFile] bundlesDisk after exit)
    (hrecursive : wishes.recursive = true) : exit = .ok .ok := by
  obtain ⟨hs, hfiles, -⟩ := filesOf_directory hrecursive
  have hnone : ¬ AnyFails bundlesDisk standardOptions.preferences wishes.checkOnly wishes
      [projectFile] := by
    intro hany
    rcases hany with ⟨path, hm, hmissing⟩ | ⟨file, hm, -⟩
    · obtain rfl := List.mem_singleton.mp hm
      exact hmissing.not_searched hs
    · simp [hfiles] at hm
  refine (h.ok_or_unsorted hnone).resolve_right fun hunsorted => ?_
  obtain ⟨-, file, hm, -⟩ := (h.unsorted_iff hnone).mp hunsorted
  simp [hfiles] at hm

/-- The check of a bundle that cannot be written finds no failure, and a directory with the name of a
project file is searched in vain and not missed. -/
theorem failures_not_checked_and_not_missed :
    (∃ sorting after checking untouched,
      (run ["B.xcodeproj"] none (pure [] : StateM Snapshot _)).run bundlesDisk = (sorting, after) ∧
      (run ["--check", "B.xcodeproj"] none (pure [] : StateM Snapshot _)).run bundlesDisk =
        (checking, untouched) ∧
      sorting.exit = .ok .failed ∧ checking.exit = .ok .unsorted) ∧
    Bundle.resolve projectFile = .ok projectFile ∧
    (∀ place content mode, bundlesDisk.get projectFile ≠ .ok (place, .file content mode)) ∧
    ∃ sorting after checking untouched,
      (run ["-r", projectFile] none (pure [] : StateM Snapshot _)).run bundlesDisk =
        (sorting, after) ∧
      (run ["-r", "--check", projectFile] none (pure [] : StateM Snapshot _)).run bundlesDisk =
        (checking, untouched) ∧
      sorting.exit = .ok .ok ∧ checking.exit = .ok .ok := by
  refine ⟨?_, by decide, ?_, ?_⟩
  · obtain ⟨sorting, after, hsorting, hs⟩ := @run_bundlesDisk ["B.xcodeproj"] {} _ (by decide) rfl rfl
      (.inl ⟨rfl, rfl⟩)
    obtain ⟨checking, untouched, hchecking, hc⟩ := @run_bundlesDisk ["--check", "B.xcodeproj"]
      { checkOnly := true } _ (by decide) rfl rfl (.inl ⟨rfl, rfl⟩)
    refine ⟨sorting, after, checking, untouched, hsorting, hchecking, ?_,
      checks_secondProject hc rfl rfl⟩
    refine hs.failed_iff.mpr (.inr ⟨_, ?_, fails_secondProject⟩)
    rw [(filesOf_second rfl).1]
    exact List.mem_singleton_self _
  · intro place content mode hget
    cases get_directory.symm.trans hget
  · obtain ⟨sorting, after, hsorting, hs⟩ := @run_bundlesDisk ["-r", projectFile]
      { recursive := true } _ (by decide) rfl rfl (.inr ⟨rfl, rfl⟩)
    obtain ⟨checking, untouched, hchecking, hc⟩ := @run_bundlesDisk ["-r", "--check", projectFile]
      { checkOnly := true, recursive := true } _ (by decide) rfl rfl (.inr ⟨rfl, rfl⟩)
    exact ⟨sorting, after, checking, untouched, hsorting, hchecking, searches_directory hs rfl,
      searches_directory hc rfl⟩

end ProjectOrder.Command
