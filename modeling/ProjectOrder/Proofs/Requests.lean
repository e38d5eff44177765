import ProjectOrder.Proofs.Collection
import ProjectOrder.Proofs.UnitOrder

/-! What the arguments of a run ask for, and that asking for a check changes nothing else. -/
namespace ProjectOrder.Command
open ProjectOrder.Disk ProjectOrder.Document ProjectOrder.Text

/-- The same has been read, and that files are to be checked. -/
structure AddsCheck (seen more : Progress) : Prop where
  mem_flags_iff : ∀ flag, flag ∈ more.flags ↔ flag ∈ seen.flags ∨ flag = .check
  settingsPath_eq : more.settingsPath = seen.settingsPath
  input_eq : more.input = seen.input
  paths_eq : more.paths = seen.paths

variable {seen more last : Progress} {front back arguments : List String}

theorem scan_flag {argument : String} {flag : Flag} (h : Flag.ofText? argument = some flag) :
    scan seen (argument :: back) = scan { seen with flags := seen.flags ++ [flag] } back := by
  rw [scan.eq_def]
  simp only [h]

theorem scan_settings {argument path : String} (h : Flag.ofText? argument = none)
    (ha : argument = "--config" ∨ argument = "-c") (hp : path ≠ "") :
    scan seen (argument :: path :: back) = scan { seen with settingsPath := some path } back := by
  rw [scan.eq_def]
  simp only [h, if_pos ha, if_neg hp]

theorem scan_input (h : Flag.ofText? "-" = none) :
    scan seen ("-" :: back) = scan { seen with input := true } back := by
  rw [scan.eq_def]
  simp [h]

theorem scan_path {argument : String} (h : Flag.ofText? argument = none)
    (ha : ¬ (argument = "--config" ∨ argument = "-c")) (hi : argument ≠ "-")
    (hd : argument.toList.head? ≠ some '-') :
    scan seen (argument :: back) = scan { seen with paths := seen.paths ++ [argument] } back := by
  rw [scan.eq_def]
  simp only [h, if_neg ha, if_neg hi, if_neg hd]

theorem scan_append (h : scan seen front = .ok last) :
    scan seen (front ++ back) = scan last back := by
  fun_induction scan seen front with
  | case1 seen =>
    cases h
    rfl
  | case2 seen argument rest flag hflag ih => rw [List.cons_append, scan_flag hflag, ih h]
  | case5 seen argument hflag ha path rest hp ih =>
    rw [List.cons_append, List.cons_append, scan_settings hflag ha hp, ih h]
  | case6 seen rest hflag ha ih => rw [List.cons_append, scan_input hflag, ih h]
  | case8 seen argument rest hflag ha hi hd ih =>
    rw [List.cons_append, scan_path hflag ha hi hd, ih h]
  | case3 | case4 | case7 => cases h

/-- One more `--check` does not change how the other arguments are read. -/
theorem AddsCheck.scan (h : AddsCheck seen more) (hs : scan seen arguments = .ok last) :
    ∃ other, Command.scan more arguments = .ok other ∧ AddsCheck last other := by
  obtain ⟨hflags, hsettings, hinput, hpaths⟩ := h
  fun_induction Command.scan seen arguments generalizing more with
  | case1 seen =>
    cases hs
    exact ⟨more, rfl, hflags, hsettings, hinput, hpaths⟩
  | case2 seen argument rest flag hflag ih =>
    rw [scan_flag hflag]
    refine ih hs (fun other => ?_) hsettings hinput hpaths
    simp only [List.mem_append, hflags other, or_right_comm]
  | case5 seen argument hflag ha path rest hp ih =>
    rw [scan_settings hflag ha hp]
    exact ih hs hflags rfl hinput hpaths
  | case6 seen rest hflag ha ih =>
    rw [scan_input hflag]
    exact ih hs hflags hsettings rfl hpaths
  | case8 seen argument rest hflag ha hi hd ih =>
    rw [scan_path hflag ha hi hd]
    exact ih hs hflags hsettings hinput (by rw [hpaths])
  | case3 | case4 | case7 => cases hs

theorem AddsCheck.contains_eq (h : AddsCheck seen more) {flag : Flag} (hne : flag ≠ .check) :
    more.flags.contains flag = seen.flags.contains flag := by
  rw [Bool.eq_iff_iff, List.contains_iff_mem, List.contains_iff_mem, h.mem_flags_iff]
  exact or_iff_left hne

theorem AddsCheck.wishes_eq (h : AddsCheck seen more) :
    more.wishes = { seen.wishes with checkOnly := true } := by
  have hcheck : more.flags.contains .check = true := by
    rw [List.contains_iff_mem, h.mem_flags_iff]
    exact .inr rfl
  simp only [Progress.wishes, hcheck, h.contains_eq, h.settingsPath_eq, ne_eq, reduceCtorEq,
    not_false_eq_true]

theorem AddsCheck.request_eq (h : AddsCheck seen more) {paths : List String} {wishes : Wishes}
    (hr : seen.request = .ok (.sortFiles paths wishes)) :
    more.request = .ok (.sortFiles paths { wishes with checkOnly := true }) := by
  simp only [Progress.request] at hr ⊢
  simp only [h.contains_eq, h.input_eq, h.paths_eq, h.wishes_eq, ne_eq, reduceCtorEq,
    not_false_eq_true]
  split_ifs at hr ⊢
  · cases hr
  · rw [Except.ok.injEq, Request.sortFiles.injEq] at hr
    rw [hr.1, hr.2]

/-- Arguments among which `--check` is put, where it is not taken for the path of settings. -/
theorem ofArguments_check {paths : List String} {wishes : Wishes} (hfront : scan {} front = .ok seen)
    (h : Request.ofArguments (front ++ back) = .ok (.sortFiles paths wishes)) :
    Request.ofArguments (front ++ "--check" :: back) =
      .ok (.sortFiles paths { wishes with checkOnly := true }) := by
  have hcontains : ∀ argument, argument ≠ "--check" →
      (front ++ "--check" :: back).contains argument = (front ++ back).contains argument := by
    intro argument hne
    rw [Bool.eq_iff_iff, List.contains_iff_mem, List.contains_iff_mem]
    simp [hne]
  rw [Request.ofArguments] at h ⊢
  rw [hcontains _ (by decide), hcontains _ (by decide), hcontains _ (by decide),
    hcontains _ (by decide)]
  split_ifs at h ⊢
  · cases h
  · cases h
  obtain ⟨last, hlast, hrequest⟩ := bind_eq_ok h
  rw [scan_append hfront] at hlast
  have hadds : AddsCheck seen { seen with flags := seen.flags ++ [.check] } :=
    ⟨by simp, rfl, rfl, rfl⟩
  obtain ⟨other, hother, hadds⟩ := hadds.scan hlast
  have hcheck : Flag.ofText? "--check" = some .check := by decide
  rw [scan_append hfront, scan_flag hcheck, hother]
  exact hadds.request_eq hrequest

section Options
variable {disk : Snapshot} {options : Options} {wishes : Wishes}

/-- Settings are looked for and read, and nothing is changed. -/
theorem outcome_load_snd (explicit configured : Option String) (disk : Snapshot) :
    (outcome (Settings.load explicit configured) disk).2 = disk := by
  refine outcome_bind_snd rfl fun directory => outcome_bind_snd ?_ fun there => ?_
  · exact congrArg Prod.snd (Bundle.outcome_isThere _ disk)
  · have hread : ∀ path, (outcome (Settings.readFile path) disk).2 = disk :=
      fun path => outcome_bind_snd rfl fun bytes => outcome_ofExcept_snd _ disk
    split_ifs
    · exact hread _
    · exact hread _
    · rfl
    · rfl

/-- The built-in settings are taken if no others are named and there is no file with settings. -/
theorem outcome_load_builtIn (h : disk.kindAt (Path.absolute
      ("/" ++ "/".intercalate disk.workingDirectory) Settings.defaultFile) = none) :
    outcome (Settings.load none none) disk = (.ok Settings.builtIn, disk) := by
  rw [Settings.load, outcome_bind, outcome_lift]
  change outcome (liftM (isThere (Path.absolute ("/" ++ "/".intercalate disk.workingDirectory)
    Settings.defaultFile) : StateM Snapshot Bool) >>= _) disk = _
  rw [outcome_bind, Bundle.outcome_isThere, h]
  rfl

/-- So they are at the root of a disk where the default file is not. -/
theorem outcome_load_at_root (hw : disk.workingDirectory = [])
    (hroot : disk.grants Snapshot.isSearchable [] = true)
    (hitem : disk.item? [Settings.defaultFile] = none) :
    outcome (Settings.load none none) disk = (.ok Settings.builtIn, disk) := by
  have hpath : Path.absolute ("/" ++ "/".intercalate []) Settings.defaultFile = "/pbxsort.json" := by
    decide +kernel
  have hsteps : Snapshot.steps "/pbxsort.json" = [Settings.defaultFile] := by decide +kernel
  have hlead : Snapshot.Leads disk true Snapshot.maxLinks [] (Snapshot.steps "/pbxsort.json")
      [Settings.defaultFile] :=
    hsteps ▸ .absent hroot ⟨by decide, by decide, by decide, by decide⟩ hitem
  have hfind : disk.find true "/pbxsort.json" = .ok ([Settings.defaultFile], none) := by
    rw [Snapshot.Leads.find hlead (by decide) (by decide), hitem]
  apply outcome_load_builtIn
  rw [hw, hpath, Snapshot.kindAt, Snapshot.status, Snapshot.get, hfind]

/-- The built-in settings leave nothing to other defaults. -/
theorem options_builtIn : Settings.builtIn.options none = Preferences.resolve {} := by
  have hnames : ∀ names : List String, (names.map Units.ofString).filterMap Units.text? = names := by
    intro names
    rw [List.filterMap_map]
    exact (List.filterMap_congr fun name _ => Units.text?_ofString name).trans List.filterMap_some
  simp only [Settings.options, Settings.builtIn, hnames]
  rfl

theorem outcome_optionsFor_snd (wishes : Wishes) (configured : Option String) (disk : Snapshot) :
    (outcome (optionsFor wishes configured) disk).2 = disk :=
  outcome_bind_snd (outcome_load_snd wishes.settingsPath configured disk) fun _ =>
    outcome_ofExcept_snd _ disk

theorem run_withOptions {configured : Option String} (work : Options → StateM Snapshot Result)
    (h : (outcome (optionsFor wishes configured) disk).1 = .ok options) :
    (withOptions wishes configured work).run disk = (work options).run disk := by
  have hrun : (optionsFor wishes configured :
      ExceptT Settings.LoadFault (StateM Snapshot) Options).run.run disk = (.ok options, disk) :=
    Prod.ext h (outcome_optionsFor_snd wishes configured disk)
  rw [withOptions, run_bind_of_eq hrun]

end Options
end ProjectOrder.Command
