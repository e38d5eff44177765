import ProjectOrder.Proofs.Collection
import ProjectOrder.Proofs.Stability

/-! A sort of one project file on a disk without links, and what it leaves of the other files. -/
namespace ProjectOrder.Bundle
open ProjectOrder.Disk ProjectOrder.Disk.Snapshot ProjectOrder.Document ProjectOrder.Text

/-- What a sort leaves of a file. -/
def leftOf (disk : Snapshot) (checkOnly : Bool) (content : List UInt8) (mode : Nat)
    (sorted : Outcome) : Item :=
  if sorted.changed && !checkOnly then replacement disk mode sorted.text else .file content mode

/-- The file at `path` fails to be sorted, or to be checked. -/
def Fails (disk : Snapshot) (preferences : Preferences) (checkOnly : Bool) (path : String) : Prop :=
  ∃ fault, (outcome (sort path preferences checkOnly) disk).1 = .error fault

section OneFile
variable {disk after : Snapshot} {path : String} {preferences : Preferences} {place : Location}
  {content : List UInt8} {mode : Nat} {sorted : Outcome} {checkOnly : Bool}

theorem isFile_leftOf : (leftOf disk checkOnly content mode sorted).isFile = true := by
  unfold leftOf
  split_ifs <;> rfl

theorem CanSort.item?_eq (h : CanSort disk path preferences place content mode sorted) :
    disk.item? place = some (.file content mode) :=
  item?_of_find (get_eq_ok_iff.mp h.get_eq)

/-- A sort leaves the sorted text. -/
theorem CanSort.exists_leftOf (h : CanSort disk path preferences place content mode sorted) :
    ∃ bytes bits, leftOf disk false content mode sorted = .file bytes bits ∧
      Utf8.decode? bytes = some sorted.text := by
  obtain ⟨text, options, hdecode, -, hsort⟩ := h.sorted_eq
  have hsame := changed_iff_text_ne hsort
  cases hc : sorted.changed with
  | true =>
    exact ⟨Utf8.encode sorted.text, mode % 0o1000 - (mode % 0o1000 &&& disk.umask),
      by simp [leftOf, hc, replacement], Utf8.decode?_encode _⟩
  | false =>
    refine ⟨content, mode, by simp [leftOf, hc], ?_⟩
    rw [hc, Bool.false_eq_true, false_iff, not_not] at hsame
    rw [hdecode, hsame]

theorem CanSort.unique {found : Location} {bytes : List UInt8} {bits : Nat} {other : Outcome}
    (h : CanSort disk path preferences place content mode sorted)
    (ho : CanSort disk path preferences found bytes bits other) :
    place = found ∧ content = bytes ∧ mode = bits ∧ sorted = other := by
  have hget := h.get_eq.symm.trans ho.get_eq
  have hsorted := (sortedAt_eq_ok_iff.mpr ⟨_, _, _, h⟩).symm.trans
    (sortedAt_eq_ok_iff.mpr ⟨_, _, _, ho⟩)
  simp only [Except.ok.injEq, Prod.mk.injEq, Item.file.injEq] at hget hsorted
  exact ⟨hget.1, hget.2.1, hget.2.2, hsorted⟩

/-- A file is rewritten exactly if sorting changes its text. -/
theorem CanSort.leftOf_ne_iff (h : CanSort disk path preferences place content mode sorted) :
    leftOf disk false content mode sorted ≠ .file content mode ↔ sorted.changed = true := by
  obtain ⟨text, options, hdecode, -, hsort⟩ := h.sorted_eq
  constructor
  · intro hne
    by_contra hc
    exact hne (by simp [leftOf, hc])
  · intro hc he
    obtain ⟨bytes, bits, hleft, hbytes⟩ := h.exists_leftOf
    rw [he, Item.file.injEq] at hleft
    rw [← hleft.1, hdecode, Option.some.injEq] at hbytes
    exact (changed_iff_text_ne hsort).mp hc hbytes.symm

/-- What keeps a file from being sorted is not what is left of an attempt to write. -/
theorem sortedAt_error_ne_notCleared {fault : Fault}
    (h : sortedAt disk path preferences = .error fault) (left : Disk.Fault) :
    fault ≠ .notCleared left := by
  rintro rfl
  rw [sortedAt, outcome_read] at h
  rcases bind_eq_error h with hread | ⟨text, -, hsort⟩
  · rcases bind_eq_error hread with hread | ⟨bytes, -, hdecode⟩
    · obtain ⟨cause, -, he⟩ := mapError_eq_error hread
      cases he
    · rw [decode] at hdecode
      split at hdecode <;> cases hdecode
  · rcases bind_eq_error hsort with hresolve | ⟨options, -, htext⟩
    · obtain ⟨cause, -, he⟩ := mapError_eq_error hresolve
      cases he
    · obtain ⟨cause, -, he⟩ := mapError_eq_error htext
      cases he

/-- A sort of a file that can be sorted, and only of that file. -/
structure SortsOne (disk after : Snapshot) (path : String) (preferences : Preferences)
    (checkOnly : Bool) (place : Location) (content : List UInt8) (mode : Nat)
    (sorted : Outcome) : Prop where
  canSort : CanSort disk path preferences place content mode sorted
  changesOnly : ChangesOnly disk after place (leftOf disk checkOnly content mode sorted)
  checked : checkOnly = true → after = disk

/-- Sorting changes the file at `path`, and it cannot be replaced. -/
def Stuck (disk : Snapshot) (preferences : Preferences) (path : String) : Prop :=
  ∃ place content mode sorted, CanSort disk path preferences place content mode sorted ∧
    sorted.changed = true ∧ ¬ Replaceable disk place

theorem CanSort.stuck_iff (h : CanSort disk path preferences place content mode sorted) :
    Stuck disk preferences path ↔ sorted.changed = true ∧ ¬ Replaceable disk place := by
  constructor
  · intro hstuck
    obtain ⟨found, bytes, bits, other, hcan, hchanged, hnot⟩ := hstuck
    obtain ⟨rfl, -, -, rfl⟩ := h.unique hcan
    exact ⟨hchanged, hnot⟩
  · intro hboth
    exact ⟨place, content, mode, sorted, h, hboth⟩

/-- On a disk without links a project file is sorted, unless what it holds keeps it from being sorted
or it would have to be replaced and cannot be. -/
theorem outcome_sort_cases (hno : disk.NoLinks) (hfresh : HasFreshTag disk)
    (hname : Path.name path = projectFile) (hclears : ClearsUp disk path)
    (preferences : Preferences) (checkOnly : Bool) :
    (∃ fault, (sortedAt disk path preferences = .error fault ∨
        checkOnly = false ∧ Stuck disk preferences path) ∧ (∀ left, fault ≠ .notCleared left) ∧
      outcome (sort path preferences checkOnly) disk = (.error fault, disk)) ∨
    ∃ place content mode sorted after,
      SortsOne disk after path preferences checkOnly place content mode sorted ∧
        (checkOnly = false → ¬ Stuck disk preferences path) ∧
        outcome (sort path preferences checkOnly) disk =
          (.ok (fileOutcome path checkOnly sorted), after) := by
  rw [outcome_sort]
  cases hs : sortedAt disk path preferences with
  | error fault => exact .inl ⟨fault, .inl rfl, sortedAt_error_ne_notCleared hs, rfl⟩
  | ok sorted =>
    obtain ⟨place, content, mode, hcan⟩ := sortedAt_eq_ok_iff.mp hs
    have hitem := hcan.item?_eq
    cases hw : sorted.changed && !checkOnly with
    | true =>
      obtain ⟨hchanged, rfl⟩ : sorted.changed = true ∧ checkOnly = false := by simpa using hw
      by_cases hreplaceable : Replaceable disk place
      · have hreplace := outcome_replace_ok hno hfresh hcan.get_eq hname hreplaceable sorted.text
        have hp : place ≠ [] := by
          rintro rfl
          simp [item?] at hitem
        refine .inr ⟨place, content, mode, sorted, disk.put place (replacement disk mode sorted.text),
          ⟨hcan, ?_, by simp⟩, ?_, by simp only [hw, if_true, hreplace]⟩
        · rw [leftOf, if_pos hw]
          exact changesOnly_put hp
        · rw [hcan.stuck_iff]
          exact fun _ hstuck => hstuck.2 hreplaceable
      · obtain ⟨fault, hreplace⟩ := outcome_replace_error hno hfresh hcan.get_eq hname hclears
          hreplaceable sorted.text
        refine .inl ⟨.unwritable path fault, .inr ⟨rfl, ?_⟩, by simp,
          by simp only [hw, if_true, hreplace]⟩
        exact hcan.stuck_iff.mpr ⟨hchanged, hreplaceable⟩
    | false =>
      refine .inr ⟨place, content, mode, sorted, disk, ⟨hcan, ?_, fun _ => rfl⟩, ?_,
        by simp only [hw, Bool.false_eq_true, if_false]⟩
      · rw [leftOf, if_neg (by simp [hw])]
        exact ⟨hitem, fun _ _ => rfl, rfl, rfl, rfl, rfl, rfl⟩
      · intro hsorts hstuck
        rw [hsorts, (hcan.stuck_iff.mp hstuck).1] at hw
        cases hw

theorem fails_iff (hno : disk.NoLinks) (hfresh : HasFreshTag disk)
    (hname : Path.name path = projectFile) (hclears : ClearsUp disk path) :
    Fails disk preferences checkOnly path ↔
      (∃ fault, sortedAt disk path preferences = .error fault) ∨
        checkOnly = false ∧ Stuck disk preferences path := by
  rw [Fails]
  rcases outcome_sort_cases hno hfresh hname hclears preferences checkOnly with
    ⟨fault, hwhy, -, hrun⟩ | ⟨place, content, mode, sorted, after, hone, hnot, hrun⟩
  · rw [hrun]
    exact iff_of_true ⟨fault, rfl⟩ (hwhy.imp_left fun hsorted => ⟨fault, hsorted⟩)
  · rw [sortedAt_eq_ok_iff.mpr ⟨place, content, mode, hone.canSort⟩, hrun]
    simpa using hnot

theorem sortedAt_congr (h : after.get path = disk.get path) :
    sortedAt after path preferences = sortedAt disk path preferences := by
  simp only [sortedAt, outcome_read, Snapshot.read, h]

theorem canSort_congr (h : after.get path = disk.get path) :
    CanSort after path preferences place content mode sorted ↔
      CanSort disk path preferences place content mode sorted := by
  constructor
  · intro hc
    exact ⟨h ▸ hc.get_eq, hc.readable, hc.sorted_eq⟩
  · intro hc
    exact ⟨h ▸ hc.get_eq, hc.readable, hc.sorted_eq⟩

end OneFile

/-- The paths do not lead to the same place. -/
def Apart (disk : Snapshot) (path other : String) : Prop :=
  ∀ place item, disk.get path = .ok (place, item) → ∀ found, disk.get other ≠ .ok (place, found)

section Frame
variable {disk after : Snapshot} {path : String} {preferences : Preferences} {checkOnly : Bool}
  {place : Location} {content : List UInt8} {mode : Nat} {sorted : Outcome}

theorem SortsOne.filesDiffer
    (h : SortsOne disk after path preferences checkOnly place content mode sorted) :
    FilesDiffer disk after := by
  apply h.changesOnly.filesDiffer _ isFile_leftOf
  intro old hold
  rw [h.canSort.item?_eq, Option.some.injEq] at hold
  subst hold
  rfl

/-- Sorting a file does not take the names for other files. -/
theorem SortsOne.hasFreshTag
    (h : SortsOne disk after path preferences checkOnly place content mode sorted)
    (hfresh : HasFreshTag disk) : HasFreshTag after := by
  have htag := h.changesOnly.temporaryTag
  constructor
  · rw [htag]
    exact hfresh.isFileName
  · intro parent
    have hnone := hfresh.unused parent
    have hne : parent ++ [temporaryName disk.temporaryTag projectFile] ≠ place := by
      rintro rfl
      rw [h.canSort.item?_eq] at hnone
      cases hnone
    rw [htag, h.changesOnly.others _ hne, hnone]

/-- Sorting a file does not change what paths to other places lead to. -/
theorem SortsOne.get_eq
    (h : SortsOne disk after path preferences checkOnly place content mode sorted) {other : String}
    (happart : Apart disk path other) (hother : IsTarget disk other) :
    after.get other = disk.get other := by
  obtain ⟨found, item, hget⟩ := hother.isThere
  have hne : found ≠ place := by
    rintro rfl
    exact happart _ _ h.canSort.get_eq item hget
  rw [hget, h.filesDiffer.get_eq hget (h.changesOnly.others found hne)]

/-- Directories stay as they are. -/
theorem SortsOne.grants_eq
    (h : SortsOne disk after path preferences checkOnly place content mode sorted)
    (allows : Nat → Bool) (other : Location) :
    after.grants allows other = disk.grants allows other := by
  by_cases ho : other = place
  · have hafter := isDirectory_eq_false h.changesOnly.item_eq isFile_leftOf
    have hdisk := isDirectory_eq_false h.canSort.item?_eq rfl
    rw [ho, Bool.eq_iff_iff]
    exact iff_of_false (fun hg => by simp [isDirectory_of_grants hg] at hafter)
      fun hg => by simp [isDirectory_of_grants hg] at hdisk
  · exact grants_congr (h.changesOnly.others other ho)

theorem SortsOne.replaceable_iff
    (h : SortsOne disk after path preferences checkOnly place content mode sorted)
    {other : Location} : Replaceable after other ↔ Replaceable disk other := by
  have htag := h.changesOnly.temporaryTag
  have htrouble := h.changesOnly.trouble?_eq
  constructor
  · intro hr
    exact ⟨h.grants_eq _ _ ▸ hr.granted, fun effort he => htrouble effort _ ▸ htag ▸ hr.untroubled effort he⟩
  · intro hr
    refine ⟨(h.grants_eq _ _).trans hr.granted, fun effort he => ?_⟩
    rw [htrouble, htag]
    exact hr.untroubled effort he

theorem SortsOne.stuck_iff
    (h : SortsOne disk after path preferences checkOnly place content mode sorted) {other : String}
    (hget : after.get other = disk.get other) :
    Stuck after preferences other ↔ Stuck disk preferences other := by
  simp only [Stuck, canSort_congr hget, h.replaceable_iff]

/-- What is made to replace another file can be taken away still. -/
theorem SortsOne.clearsUp
    (h : SortsOne disk after path preferences checkOnly place content mode sorted) {other : String}
    (hno : disk.NoLinks) (hfresh : HasFreshTag disk) (hother : IsTarget disk other)
    (hget : after.get other = disk.get other) (hclears : ClearsUp disk other) :
    ClearsUp after other := by
  obtain ⟨target, item, hthere⟩ := hother.isThere
  have hbefore := hfresh.find_temporaryPath hno hthere hother.name_eq
  have hafter := (h.hasFreshTag hfresh).find_temporaryPath (h.filesDiffer.noLinks hno)
    (hget.trans hthere) hother.name_eq
  rw [h.changesOnly.temporaryTag] at hafter
  intro beside hfind
  rw [h.changesOnly.temporaryTag, hafter, Except.ok.injEq, Prod.mk.injEq] at hfind
  rw [h.changesOnly.trouble?_eq, h.changesOnly.trouble?_eq, ← hfind.1]
  exact hclears _ hbefore

theorem SortsOne.fails_iff
    (h : SortsOne disk after path preferences checkOnly place content mode sorted) {other : String}
    (hno : disk.NoLinks) (hfresh : HasFreshTag disk) (hother : IsTarget disk other)
    (hget : after.get other = disk.get other) (hclears : ClearsUp disk other) :
    Fails after preferences checkOnly other ↔ Fails disk preferences checkOnly other := by
  rw [Bundle.fails_iff (h.filesDiffer.noLinks hno) (h.hasFreshTag hfresh) hother.name_eq
    (h.clearsUp hno hfresh hother hget hclears), Bundle.fails_iff hno hfresh hother.name_eq hclears,
    sortedAt_congr hget, h.stuck_iff hget]

end Frame

/-- A section with two records that are not in order. -/
def swappedFiles : Segment :=
  .region (.section "PBXBuildFile") "/* Begin PBXBuildFile section */".toList
    ["\t\t000000000000000000000000 /* b */ = \x7b\x7d;".toList,
      "\t\t000000000000000000000001 /* a */ = \x7b\x7d;".toList]
    "/* End PBXBuildFile section */".toList

theorem sortText_swappedFiles :
    sortText standardOptions (unlines swappedFiles.lines) = .ok
      { text := unlines (swappedFiles.mapBody fun _ => List.reverse).lines
        changed := true
        tallies := [
          { kind := .section, name := "PBXBuildFile", line := 1, entries := 2,
            reordered := true }] } := by
  have hc : swappedFiles.IsCut opening? :=
    ⟨by decide +kernel, by decide +kernel, by decide +kernel⟩
  have hl : lines (unlines swappedFiles.lines) = swappedFiles.lines := by decide +kernel
  have hs : segments opening? swappedFiles.lines = [swappedFiles] :=
    (segments_region hc []).trans (by rw [segments_nil]; rfl)
  rw [sortText, sortLines, hl, hs]
  cbv

theorem canSort_swappedFiles {disk : Snapshot} {path : String} {place : Location} {mode : Nat}
    (hget : disk.get path = .ok (place, .file (Utf8.encode (unlines swappedFiles.lines)) mode))
    (hmode : isReadable mode = true) : ∃ sorted, sorted.changed = true ∧
      sorted.text = unlines (swappedFiles.mapBody fun _ => List.reverse).lines ∧
      CanSort disk path standardOptions.preferences place
        (Utf8.encode (unlines swappedFiles.lines)) mode sorted :=
  ⟨_, rfl, rfl, hget, hmode, unlines swappedFiles.lines, standardOptions, Utf8.decode?_encode _,
    resolve_preferences standardOptions, sortText_swappedFiles⟩

end ProjectOrder.Bundle
