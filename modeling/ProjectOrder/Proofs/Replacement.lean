import ProjectOrder.Proofs.Attempts
import ProjectOrder.Proofs.NormalPaths
import ProjectOrder.Proofs.TextBytes

/-! A file is replaced as a whole or not at all, and nothing else is touched. -/
namespace ProjectOrder.Bundle
open ProjectOrder.Disk ProjectOrder.Disk.Snapshot ProjectOrder.Document ProjectOrder.Text

/-- The name of the file by way of which one with this name is replaced. -/
def temporaryName (tag name : String) : String :=
  s!".{name}.{tag}.tmp"

/-- The path of the file by way of which the one at `path` is replaced. -/
def temporaryPath (tag path : String) : String :=
  Path.sibling path (temporaryName tag (Path.name path))

/-- The tag makes names that are not in use yet. -/
structure HasFreshTag (disk : Snapshot) : Prop where
  isFileName : IsFileName (temporaryName disk.temporaryTag projectFile)
  unused : ∀ parent, disk.item? (parent ++ [temporaryName disk.temporaryTag projectFile]) = none

theorem isFileName_projectFile : IsFileName projectFile :=
  ⟨⟨by decide, by decide, by decide, by decide⟩, by decide, by decide⟩

/-- The file by way of which a project file is replaced would stand beside it. -/
theorem HasFreshTag.find_temporaryPath {disk : Snapshot} {path : String} {place : Location}
    {item : Item} (hfresh : HasFreshTag disk) (hno : disk.NoLinks)
    (hget : disk.get path = .ok (place, item)) (hname : Path.name path = projectFile) :
    disk.find false (temporaryPath disk.temporaryTag path) =
      .ok (place.dropLast ++ [temporaryName disk.temporaryTag projectFile], none) := by
  have hfile : IsFileName (Path.name path) := hname ▸ isFileName_projectFile
  obtain ⟨parent, rfl, -, hfind⟩ := find_sibling hno hget hfile hfresh.isFileName
  rw [hfresh.unused] at hfind
  rw [temporaryPath, hname, hfind, List.dropLast_concat]

/-- A file that is made to replace the one at `path` can be taken away again, as it always can where the
system does not fail. -/
def ClearsUp (disk : Snapshot) (path : String) : Prop :=
  ∀ place, disk.find false (temporaryPath disk.temporaryTag path) = .ok (place, none) →
    disk.trouble? .close place = none ∧ disk.trouble? .remove place = none

theorem clearsUp_of_no_troubles {disk : Snapshot} (h : disk.troubles = []) (path : String) :
    ClearsUp disk path := by
  intro place _
  simp [trouble?, h]

theorem ClearsUp.not_leftBehind {disk after : Snapshot} {path : String} {place : Location}
    (hclears : ClearsUp disk path) :
    ¬ LeftBehind disk (temporaryPath disk.temporaryTag path) place after := by
  intro h
  obtain ⟨hclose, hremove⟩ := hclears place h.canCreate.find_eq
  exact h.troubled.elim (absurd hclose) (absurd hremove)

/-- The file that replaces one with this mode. -/
def replacement (disk : Snapshot) (mode : Nat) (content : List Char) : Item :=
  .file (Utf8.encode content) (mode % 0o1000 - (mode % 0o1000 &&& disk.umask))

section Steps
variable {disk : Snapshot} {path temporary : String} {target : Location} {old : List UInt8}
  {mode : Nat} {content : List Char}

theorem outcome_modeFor (hget : disk.get path = .ok (target, .file old mode)) :
    outcome (modeFor path) disk = (.ok (mode % 0o1000), disk) := by
  have hstatus : disk.status path = .ok { kind := .file, mode := mode % 0o1000 } := by
    rw [status, hget]
  rw [modeFor, outcome_bind, outcome_tryCatch, outcome_bind, FileSystem.outcome_status, hstatus]
  rfl

theorem outcome_replace (path : String) (content : List Char) (disk : Snapshot) :
    outcome (replace path content) disk =
      match outcome (writeAnew (temporaryPath disk.temporaryTag path) path content) disk with
      | (.ok (), after) => (.ok (), after)
      | (.error failure, after) =>
        match outcome (clearUp (temporaryPath disk.temporaryTag path) failure.held) after with
        | (.ok (), cleared) => (.error (.unwritable path failure.fault), cleared)
        | (.error left, cleared) => (.error (.notCleared left), cleared) := by
  have htag : (FileSystem.temporaryTag : StateM Snapshot String).run disk =
      (disk.temporaryTag, disk) := rfl
  have hpath : Path.sibling path s!".{Path.name path}.{disk.temporaryTag}.tmp" =
      temporaryPath disk.temporaryTag path := rfl
  have hwrite : (writeAnew (temporaryPath disk.temporaryTag path) path content :
      ExceptT Failure (StateM Snapshot) Unit).run.run disk =
        outcome (writeAnew (temporaryPath disk.temporaryTag path) path content) disk := rfl
  rw [replace, outcome_bind, outcome_lift, htag]
  simp only [hpath]
  rw [outcome_bind, outcome_lift, hwrite]
  rcases outcome (writeAnew (temporaryPath disk.temporaryTag path) path content) disk with
    ⟨failure | _, after⟩
  · simp only
    rw [outcome_bind, outcome_adapt]
    rcases outcome (clearUp (temporaryPath disk.temporaryTag path) failure.held) after with
      ⟨left | _, cleared⟩ <;> rfl
  · rfl

/-- An attempt that succeeds puts the bytes where the path itself leads. -/
theorem Attempt.exists_put {after : Snapshot} {bits : Nat} {bytes : List UInt8}
    (hget : disk.get path = .ok (target, .file old mode))
    (h : Attempt disk temporary path bits bytes (.ok ()) after) :
    ∃ goal replaced, goal ≠ [] ∧ disk.find false path = .ok (goal, some replaced) ∧
      after = disk.put goal (.file bytes bits) := by
  cases h with
  | @named place goal hcan _ htarget =>
    have hd : FilesDiffer disk (disk.put place (.file bytes bits)) :=
      filesDiffer_put hcan.ne_nil (by simp [hcan.item?_eq]) rfl
    obtain ⟨hgoal, replaced, hreplaced⟩ := find_of_renameTarget hd hget htarget
    exact ⟨goal, replaced, hgoal, hreplaced, rfl⟩

/-- On a disk without links, what it takes for a file at a place to be replaced: names can be made and
removed in its directory, and the system does what it is asked to with the file beside it. -/
structure Replaceable (disk : Snapshot) (target : Location) : Prop where
  granted : disk.grants isWritable target.dropLast = true
  untroubled : ∀ effort ∈ [.create, .write, .sync, .close, .rename],
    disk.trouble? effort (target.dropLast ++ [temporaryName disk.temporaryTag projectFile]) = none

section NoLinks
variable (hno : disk.NoLinks) (hfresh : HasFreshTag disk)
  (hget : disk.get path = .ok (target, .file old mode)) (hname : Path.name path = projectFile)
include hno hfresh hget hname

/-- The file beside the old one can take its name if the directory of both may be written to. -/
theorem renameTarget_of_granted (hgranted : disk.grants isWritable target.dropLast = true)
    (bits : Nat) (bytes : List UInt8) :
    (disk.put (target.dropLast ++ [temporaryName disk.temporaryTag projectFile])
      (.file bytes bits)).renameTarget
        (target.dropLast ++ [temporaryName disk.temporaryTag projectFile]) path = .ok target := by
  have hnone := hfresh.unused target.dropLast
  have hne : target ≠ target.dropLast ++ [temporaryName disk.temporaryTag projectFile] := by
    intro he
    have hitem : disk.item? target = some (.file old mode) := item?_of_find (get_eq_ok_iff.mp hget)
    rw [he, hnone] at hitem
    cases hitem
  have hd : FilesDiffer disk (disk.put
      (target.dropLast ++ [temporaryName disk.temporaryTag projectFile]) (.file bytes bits)) :=
    filesDiffer_put (by simp) (by simp [hnone]) rfl
  have hfile : IsFileName (Path.name path) := hname ▸ isFileName_projectFile
  rw [renameTarget_eq_of_get hno hget rfl hfile hd hne (by simp), if_pos hgranted]

/-- Whatever detours the path of a project file makes, the file is replaced if it can be. -/
theorem outcome_replace_ok (hcan : Replaceable disk target) (content : List Char) :
    outcome (replace path content) disk =
      (.ok (), disk.put target (replacement disk mode content)) := by
  have hfind := hfresh.find_temporaryPath hno hget hname
  obtain ⟨result, after, hrun, hattempt⟩ :=
    @exists_attempt disk (temporaryPath disk.temporaryTag path) _ _ content (outcome_modeFor hget)
  rw [outcome_replace, hrun]
  cases hattempt with
  | refused hcannot =>
    exact absurd ⟨hfind, by simpa using hcan.granted, hcan.untroubled _ (by simp)⟩ (hcannot _)
  | @broken _ place _ hmade htroubled =>
    rw [hmade.eq_of_find hfind, hcan.untroubled .write (by simp), hcan.untroubled .sync (by simp)] at htroubled
    simp at htroubled
  | @unclosed _ place hmade _ htroubled =>
    rw [hmade.eq_of_find hfind, hcan.untroubled .close (by simp)] at htroubled
    exact absurd rfl htroubled
  | @unnamed _ place hmade _ htroubled =>
    have htarget := renameTarget_of_granted hno hfresh hget hname hcan.granted
    rw [hmade.eq_of_find hfind, hcan.untroubled .rename (by simp), htarget] at htroubled
    simp at htroubled
  | @named place goal hmade _ htarget =>
    rw [hmade.eq_of_find hfind, renameTarget_of_granted hno hfresh hget hname hcan.granted] at htarget
    cases htarget
    rfl

theorem outcome_replace_error (hclears : ClearsUp disk path) (hcan : ¬ Replaceable disk target)
    (content : List Char) :
    ∃ fault, outcome (replace path content) disk = (.error (.unwritable path fault), disk) := by
  have hfind := hfresh.find_temporaryPath hno hget hname
  obtain ⟨result, after, hrun, hattempt⟩ :=
    @exists_attempt disk (temporaryPath disk.temporaryTag path) _ _ content (outcome_modeFor hget)
  rw [outcome_replace, hrun]
  cases result with
  | error failure =>
    refine ⟨failure.fault, ?_⟩
    rcases hattempt.clearUp_cases with
      ⟨-, hafter, hheld⟩ | hcleared | ⟨place, left, cleared, -, hbehind⟩
    · simp only [hafter, hheld, outcome_clearUp_none, remove, hfind]
    · simp only [hcleared]
    · exact absurd hbehind hclears.not_leftBehind
  | ok value =>
    cases hattempt with
    | @named place goal hmade huntroubled _ =>
      refine absurd ⟨?_, ?_⟩ hcan
      · simpa [hmade.eq_of_find hfind] using hmade.granted
      · intro effort heffort
        rw [← hmade.eq_of_find hfind]
        rcases List.mem_cons.mp heffort with rfl | heffort
        · exact hmade.untroubled
        · exact huntroubled effort heffort

end NoLinks

/-- Reading asks the disk for a file, and tells its text if it has one. -/
theorem outcome_read (path : String) (disk : Snapshot) :
    outcome (read path) disk =
      ((disk.read path).mapError (Fault.unreadable path) >>= decode, disk) := by
  rw [Bundle.read, outcome_bind, outcome_adapt, FileSystem.outcome_read]
  rcases disk.read path with fault | bytes
  · rfl
  · exact outcome_ofExcept (decode bytes) disk

theorem decode_eq_ok_iff {bytes : List UInt8} {text : List Char} :
    decode bytes = .ok text ↔ Utf8.decode? bytes = some text := by
  unfold decode
  cases Utf8.decode? bytes <;> simp

theorem read_eq_ok_iff {bytes : List UInt8} :
    disk.read path = .ok bytes ↔
      ∃ target mode, disk.get path = .ok (target, .file bytes mode) ∧ isReadable mode = true := by
  unfold Snapshot.read
  rcases disk.get path with cause | ⟨target, ⟨content, mode⟩ | mode | link⟩
  · simp
  · cases hr : isReadable mode <;> simp [hr]
  · cases hr : isReadable mode <;> simp [hr]
  · simp

end Steps

/-- What sorting makes of the text of a file. -/
def sortedAt (disk : Snapshot) (path : String) (preferences : Preferences) :
    Except Fault Outcome :=
  (outcome (read path) disk).1 >>= sortContent preferences

/-- A file can be sorted if it is there, can be read, is text, and its text can be sorted. -/
structure CanSort (disk : Snapshot) (path : String) (preferences : Preferences) (target : Location)
    (content : List UInt8) (mode : Nat) (sorted : Outcome) : Prop where
  get_eq : disk.get path = .ok (target, .file content mode)
  readable : isReadable mode = true
  sorted_eq : ∃ text options, Utf8.decode? content = some text ∧ preferences.resolve = .ok options ∧
    sortText options text = .ok sorted

theorem sortContent_eq_ok_iff {preferences : Preferences} {text : List Char} {sorted : Outcome} :
    sortContent preferences text = .ok sorted ↔
      ∃ options, preferences.resolve = .ok options ∧ sortText options text = .ok sorted := by
  constructor
  · exact sortText_of_sortContent
  · intro h
    obtain ⟨options, hr, hs⟩ := h
    rw [sortContent, hr]
    exact mapError_eq_ok.mpr hs

theorem sortedAt_eq_ok_iff {disk : Snapshot} {path : String} {preferences : Preferences}
    {sorted : Outcome} : sortedAt disk path preferences = .ok sorted ↔
      ∃ target content mode, CanSort disk path preferences target content mode sorted := by
  rw [sortedAt, outcome_read]
  constructor
  · intro h
    obtain ⟨text, hread, hsort⟩ := bind_eq_ok h
    obtain ⟨bytes, hread, hdecode⟩ := bind_eq_ok hread
    obtain ⟨target, mode, hget, hr⟩ := read_eq_ok_iff.mp (mapError_eq_ok.mp hread)
    obtain ⟨options, hresolve, htext⟩ := sortContent_eq_ok_iff.mp hsort
    exact ⟨target, bytes, mode, hget, hr, text, options, decode_eq_ok_iff.mp hdecode, hresolve,
      htext⟩
  · intro h
    obtain ⟨target, content, mode, hget, hr, text, options, hdecode, hresolve, htext⟩ := h
    simp only [read_eq_ok_iff.mpr ⟨target, mode, hget, hr⟩, Except.mapError]
    change (decode content >>= sortContent preferences) = _
    rw [decode_eq_ok_iff.mpr hdecode]
    exact sortContent_eq_ok_iff.mpr ⟨options, hresolve, htext⟩

/-- What is told of a file that was sorted. -/
def fileOutcome (path : String) (checkOnly : Bool) (sorted : Outcome) : FileOutcome :=
  { path
    alreadySorted := !sorted.changed
    written := sorted.changed && !checkOnly
    tallies := sorted.tallies }

theorem outcome_sort (path : String) (preferences : Preferences) (checkOnly : Bool)
    (disk : Snapshot) : outcome (sort path preferences checkOnly) disk =
      match sortedAt disk path preferences with
      | .error fault => (.error fault, disk)
      | .ok sorted =>
        if sorted.changed && !checkOnly then
          match outcome (replace path sorted.text) disk with
          | (.error fault, after) => (.error fault, after)
          | (.ok (), after) => (.ok (fileOutcome path checkOnly sorted), after)
        else (.ok (fileOutcome path checkOnly sorted), disk) := by
  rw [sort, sortedAt, outcome_bind, outcome_read]
  rcases (disk.read path).mapError (Fault.unreadable path) >>= decode with fault | text
  · rfl
  · simp only
    rw [outcome_bind, outcome_ofExcept]
    change _ = match sortContent preferences text with
      | .error fault => _
      | .ok sorted => _
    rcases sortContent preferences text with fault | sorted
    · rfl
    · by_cases hw : (sorted.changed && !checkOnly) = true
      · simp only [if_pos hw]
        rw [outcome_bind]
        rcases outcome (replace path sorted.text) disk with ⟨fault | _, after⟩ <;> rfl
      · simp only [if_neg hw]
        rfl

/-- What sorting did to a file and its disk: nothing at all, or it put the sorted text in place of
the item that the path names. -/
structure SortsFile (path : String) (preferences : Preferences) (checkOnly : Bool)
    (disk after : Snapshot) (result : FileOutcome) : Prop where
  path_eq : result.path = path
  written_eq : result.written = (!result.alreadySorted && !checkOnly)
  unwritten : result.written = false → after = disk
  /-- The file may stand behind a link. Its mode and content go where the path itself leads. -/
  sorted : ∃ target content mode sorted,
    CanSort disk path preferences target content mode sorted ∧
      result.alreadySorted = !sorted.changed ∧ result.tallies = sorted.tallies ∧
      (result.written = true → ∃ goal replaced, disk.find false path = .ok (goal, some replaced) ∧
        ChangesOnly disk after goal (replacement disk mode sorted.text))

/-- A disk with nothing but a project, at its root. -/
def onlyProject (content : List UInt8) (mode : Nat) (troubles : List Trouble) : Snapshot :=
  { items := [([projectFile], .file content mode)]
    workingDirectory := []
    umask := 0o022
    temporaryTag := "tag"
    troubles }

section OnlyProject
variable {content : List UInt8} {mode : Nat} {troubles : List Trouble}

theorem item?_onlyProject (place : Location) : (onlyProject content mode troubles).item? place =
    if place = [] then some (.directory 0o755)
    else if place = [projectFile] then some (.file content mode)
    else none := by
  unfold item? onlyProject
  by_cases hp : place = [projectFile]
  · simp [hp]
  · have hne : (place == [projectFile]) = false := by simpa using hp
    simp only [List.lookup_cons, hne, List.lookup_nil, hp, if_false]

theorem grants_onlyProject {allows : Nat → Bool} (h : allows 0o755 = true) :
    (onlyProject content mode troubles).grants allows [] = true :=
  grants_eq_true_iff.mpr ⟨0o755, by simp [item?_onlyProject], h⟩

theorem noLinks_onlyProject : (onlyProject content mode troubles).NoLinks := by
  intro place target h
  rw [item?_onlyProject] at h
  split_ifs at h <;> cases h

theorem temporaryName_onlyProject :
    temporaryName (onlyProject content mode troubles).temporaryTag projectFile =
      ".project.pbxproj.tag.tmp" := by
  change temporaryName "tag" projectFile = _
  decide

theorem hasFreshTag_onlyProject : HasFreshTag (onlyProject content mode troubles) := by
  refine ⟨?_, ?_⟩
  · rw [temporaryName_onlyProject]
    exact ⟨⟨by decide, by decide, by decide, by decide⟩, by decide, by decide⟩
  · rw [temporaryName_onlyProject]
    exact item?_concat_eq_none (by simp [onlyProject, projectFile])

theorem get_onlyProject : (onlyProject content mode troubles).get projectFile =
    .ok ([projectFile], .file content mode) := by
  have hsteps : steps projectFile = [projectFile] := by decide
  have hitem : (onlyProject content mode troubles).item? [projectFile] =
      some (.file content mode) := by
    rw [item?_onlyProject, if_neg (by simp), if_pos rfl]
  refine Leads.get ?_ (by decide) isFileName_projectFile.ne_empty hitem
  rw [hsteps]
  exact .down (grants_onlyProject (by decide)) isFileName_projectFile.toIsName hitem (by simp) .here

theorem replaceable_onlyProject : Replaceable (onlyProject content mode []) [projectFile] :=
  ⟨grants_onlyProject (by decide), fun _ _ => rfl⟩

end OnlyProject

/-- A project whose records are not in order, at the root of a disk. -/
def swappedProject (mode : Nat) (troubles : List Trouble) : Snapshot :=
  onlyProject (Utf8.encode (unlines swappedRecords.lines)) mode troubles

theorem canSort_swappedProject {mode : Nat} (h : isReadable mode = true)
    (troubles : List Trouble) : ∃ sorted, sorted.changed = true ∧
      sorted.text = unlines (swappedRecords.mapBody fun _ => List.reverse).lines ∧
      CanSort (swappedProject mode troubles) projectFile sampleOptions.preferences [projectFile]
        (Utf8.encode (unlines swappedRecords.lines)) mode sorted := by
  refine ⟨_, ?_, ?_, get_onlyProject, h, unlines swappedRecords.lines, sampleOptions,
    Utf8.decode?_encode _, resolve_preferences sampleOptions, sortText_swappedRecords⟩
  · rfl
  · rfl

/-- Sorting this project is replacing it. -/
theorem outcome_sort_swappedProject {mode : Nat} (h : isReadable mode = true)
    (troubles : List Trouble) : ∃ content result,
      content = unlines (swappedRecords.mapBody fun _ => List.reverse).lines ∧
      result.written = true ∧
      outcome (sort projectFile sampleOptions.preferences false) (swappedProject mode troubles) =
        match outcome (replace projectFile content) (swappedProject mode troubles) with
        | (.error fault, after) => (.error fault, after)
        | (.ok (), after) => (.ok result, after) := by
  obtain ⟨sorted, hchanged, htext, hcan⟩ := canSort_swappedProject h troubles
  refine ⟨_, fileOutcome projectFile false sorted, htext, by simp [fileOutcome, hchanged], ?_⟩
  rw [outcome_sort, sortedAt_eq_ok_iff.mpr ⟨_, _, _, hcan⟩]
  simp only [hchanged]
  rfl

/-- The disk with this project and nothing that goes wrong. -/
def sampleDisk : Snapshot :=
  swappedProject 0o755 []

section AtTemporary
variable {content : List UInt8} {mode : Nat} {effort other : Effort} {taken : Nat}

end AtTemporary

end ProjectOrder.Bundle
