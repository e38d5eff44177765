import ProjectOrder.Proofs.Requests

/-! Which arguments are understood, and that their order matters among paths only. -/
namespace ProjectOrder.Command
open ProjectOrder.Document

/-- The texts that write a flag. -/
def Flag.texts : Flag → List String
  | .check => ["--check"]
  | .ignoreCase => ["--case-insensitive"]
  | .heedCase => ["--case-sensitive"]
  | .noWarnings => ["--no-warnings", "-w"]
  | .recursive => ["--recursive", "-r"]
  | .failFast => ["--fail-fast"]

/-- What arguments say, one thing at a time. -/
inductive Clause where
  | flag (flag : Flag)
  | settings (path : String)
  | input
  | file (path : String)
  deriving DecidableEq, Repr

def Clause.flag? : Clause → Option Flag
  | .flag asked => some asked
  | _ => none

def Clause.settings? : Clause → Option String
  | .settings path => some path
  | _ => none

def Clause.file? : Clause → Option String
  | .file path => some path
  | _ => none

/-- The arguments say this, from left to right. The path of settings may look like anything else. -/
inductive Says : (arguments : List String) → (clauses : List Clause) → Prop
  | nil : Says [] []
  | flag {text : String} {flag : Flag} {rest : List String} {clauses : List Clause} :
    text ∈ flag.texts → Says rest clauses → Says (text :: rest) (.flag flag :: clauses)
  | settings {text path : String} {rest : List String} {clauses : List Clause} :
    text = "--config" ∨ text = "-c" → path ≠ "" → Says rest clauses →
      Says (text :: path :: rest) (.settings path :: clauses)
  | input {rest : List String} {clauses : List Clause} :
    Says rest clauses → Says ("-" :: rest) (.input :: clauses)
  | file {path : String} {rest : List String} {clauses : List Clause} :
    path.toList.head? ≠ some '-' → Says rest clauses → Says (path :: rest) (.file path :: clauses)

section Flags
variable {text : String} {flag : Flag}

theorem ofText?_eq_some_iff : Flag.ofText? text = some flag ↔ text ∈ flag.texts := by
  constructor
  · intro h
    unfold Flag.ofText? at h
    split_ifs at h <;> cases h <;> simp_all [Flag.texts]
  · intro h
    cases flag <;> simp only [Flag.texts, List.mem_cons, List.not_mem_nil, or_false] at h
    all_goals
      rcases h with rfl | rfl <;> decide

theorem head?_of_mem_texts (h : text ∈ flag.texts) : text.toList.head? = some '-' := by
  cases flag <;> simp only [Flag.texts, List.mem_cons, List.not_mem_nil, or_false] at h
  all_goals
    rcases h with rfl | rfl <;> decide

theorem ofText?_eq_none_of_head? (h : text.toList.head? ≠ some '-') : Flag.ofText? text = none := by
  rw [Option.eq_none_iff_forall_ne_some]
  intro flag hflag
  exact h (head?_of_mem_texts (ofText?_eq_some_iff.mp hflag))

end Flags

section Reading
variable {seen last : Progress} {arguments : List String} {clauses : List Clause}

/-- What has been read once one more thing is said. -/
def Progress.take (seen : Progress) : Clause → Progress
  | .flag flag => { seen with flags := seen.flags ++ [flag] }
  | .settings path => { seen with settingsPath := some path }
  | .input => { seen with input := true }
  | .file path => { seen with paths := seen.paths ++ [path] }

theorem Says.scan (h : Says arguments clauses) (seen : Progress) :
    scan seen arguments = .ok (clauses.foldl Progress.take seen) := by
  induction h generalizing seen with
  | nil => rfl
  | flag htext _ ih => rw [scan_flag (ofText?_eq_some_iff.mpr htext), ih, List.foldl_cons]; rfl
  | settings htext hpath _ ih =>
    have hnone : ∀ text, text = "--config" ∨ text = "-c" → Flag.ofText? text = none := by
      rintro text (rfl | rfl) <;> decide
    rw [scan_settings (hnone _ htext) htext hpath, ih, List.foldl_cons]
    rfl
  | input _ ih => rw [scan_input (by decide), ih, List.foldl_cons]; rfl
  | @file path _ _ hpath _ ih =>
    have hne : ∀ text, text.toList.head? = some '-' → path ≠ text := by
      rintro text htext rfl
      exact hpath htext
    have hsettings : ¬ (path = "--config" ∨ path = "-c") :=
      not_or.mpr ⟨hne _ (by decide), hne _ (by decide)⟩
    rw [scan_path (ofText?_eq_none_of_head? hpath) hsettings (hne _ (by decide)) hpath, ih,
      List.foldl_cons]
    rfl

/-- What can be read says something, one thing after the other. -/
theorem exists_says_of_scan (h : scan seen arguments = .ok last) :
    ∃ clauses, Says arguments clauses := by
  fun_induction Command.scan seen arguments with
  | case1 seen => exact ⟨[], .nil⟩
  | case2 seen argument rest flag hflag ih =>
    obtain ⟨clauses, hclauses⟩ := ih h
    exact ⟨_, .flag (ofText?_eq_some_iff.mp hflag) hclauses⟩
  | case5 seen argument hflag ha path rest hp ih =>
    obtain ⟨clauses, hclauses⟩ := ih h
    exact ⟨_, .settings ha hp hclauses⟩
  | case6 seen rest hflag ha ih =>
    obtain ⟨clauses, hclauses⟩ := ih h
    exact ⟨_, .input hclauses⟩
  | case8 seen argument rest hflag ha hi hd ih =>
    obtain ⟨clauses, hclauses⟩ := ih h
    exact ⟨_, .file hd hclauses⟩
  | case3 | case4 | case7 => cases h

/-- What has been read once all of this is said. -/
def Progress.of (clauses : List Clause) : Progress :=
  { flags := clauses.filterMap Clause.flag?
    settingsPath := (clauses.filterMap Clause.settings?).getLast?
    input := clauses.contains .input
    paths := clauses.filterMap Clause.file? }

theorem foldl_take (clauses : List Clause) : clauses.foldl Progress.take {} = Progress.of clauses := by
  induction clauses using List.reverseRecOn with
  | nil => rfl
  | append_singleton clauses clause ih =>
    rw [List.foldl_append, List.foldl_cons, List.foldl_nil, ih]
    cases clause <;> simp [Progress.take, Progress.of, Clause.flag?, Clause.settings?, Clause.file?]

end Reading

section Requests
variable {clauses more : List Clause} {arguments : List String}

@[simp] theorem flag?_eq_some_iff {clause : Clause} {flag : Flag} :
    clause.flag? = some flag ↔ clause = .flag flag := by
  cases clause <;> simp [Clause.flag?]

@[simp] theorem settings?_eq_some_iff {clause : Clause} {path : String} :
    clause.settings? = some path ↔ clause = .settings path := by
  cases clause <;> simp [Clause.settings?]

@[simp] theorem file?_eq_some_iff {clause : Clause} {path : String} :
    clause.file? = some path ↔ clause = .file path := by
  cases clause <;> simp [Clause.file?]

theorem mem_flags_iff {flag : Flag} : flag ∈ (Progress.of clauses).flags ↔ .flag flag ∈ clauses := by
  simp [Progress.of, List.mem_filterMap]

theorem paths_eq_nil_iff : (Progress.of clauses).paths = [] ↔ ∀ path, .file path ∉ clauses := by
  rw [Progress.of, List.eq_nil_iff_forall_not_mem]
  simp [List.mem_filterMap]

theorem input_eq_true_iff : (Progress.of clauses).input = true ↔ .input ∈ clauses := by
  simp [Progress.of]

/-- What is asked for hangs on which flags there are, and neither on their order nor on their number. -/
theorem request_congr {seen other : Progress} (hflags : ∀ flag, flag ∈ seen.flags ↔ flag ∈ other.flags)
    (hsettings : seen.settingsPath = other.settingsPath) (hinput : seen.input = other.input)
    (hpaths : seen.paths = other.paths) : seen.request = other.request := by
  have hcontains : ∀ flag, seen.flags.contains flag = other.flags.contains flag := by
    intro flag
    rw [Bool.eq_iff_iff, List.contains_iff_mem, List.contains_iff_mem, hflags]
  simp only [Progress.request, Progress.wishes, hcontains, hsettings, hinput, hpaths]

/-- What is said can be done: it names one letter case at most, and either files or the input. -/
structure IsClear (clauses : List Clause) : Prop where
  one_case : ¬ (.flag .ignoreCase ∈ clauses ∧ .flag .heedCase ∈ clauses)
  one_source : (.input ∈ clauses ∧ ∀ path, .file path ∉ clauses) ∨
    ((∃ path, .file path ∈ clauses) ∧ .input ∉ clauses)

theorem Progress.exists_request_iff {seen : Progress} : (∃ request, seen.request = .ok request) ↔
    ¬ (.ignoreCase ∈ seen.flags ∧ .heedCase ∈ seen.flags) ∧
      (seen.input = true ↔ seen.paths = []) := by
  simp only [Progress.request, Bool.and_eq_true, List.contains_iff_mem]
  split_ifs <;> simp_all

theorem isClear_iff : IsClear clauses ↔
    ¬ (.ignoreCase ∈ (Progress.of clauses).flags ∧ .heedCase ∈ (Progress.of clauses).flags) ∧
      ((Progress.of clauses).input = true ↔ (Progress.of clauses).paths = []) := by
  have hsource : ((.input ∈ clauses ∧ ∀ path, .file path ∉ clauses) ∨
      ((∃ path, .file path ∈ clauses) ∧ .input ∉ clauses)) ↔
        (.input ∈ clauses ↔ ∀ path, .file path ∉ clauses) := by
    rw [← not_forall_not]
    tauto
  rw [mem_flags_iff, mem_flags_iff, input_eq_true_iff, paths_eq_nil_iff, ← hsource]
  exact ⟨fun h => ⟨h.one_case, h.one_source⟩, fun h => ⟨h.1, h.2⟩⟩

/-- No argument asks for help or for the version. -/
def AsksForWork (arguments : List String) : Prop :=
  ∀ text ∈ ["--help", "-h", "--version", "-v"], text ∉ arguments

instance (arguments : List String) : Decidable (AsksForWork arguments) :=
  inferInstanceAs (Decidable (∀ text ∈ ["--help", "-h", "--version", "-v"], text ∉ arguments))

theorem ofArguments_eq (h : AsksForWork arguments) :
    Request.ofArguments arguments = scan {} arguments >>= Progress.request := by
  have hno : ∀ text ∈ ["--help", "-h", "--version", "-v"], arguments.contains text = false := by
    intro text htext
    rw [Bool.eq_false_iff, ne_eq, List.contains_iff_mem]
    exact h text htext
  simp only [List.forall_mem_cons] at hno
  obtain ⟨hhelp, hh, hversion, hv, -⟩ := hno
  rw [Request.ofArguments, hhelp, hh, hversion, hv]
  rfl

theorem ofArguments_of_clauses (h : AsksForWork arguments) (hs : Says arguments clauses) :
    Request.ofArguments arguments = (Progress.of clauses).request := by
  rw [ofArguments_eq h, hs.scan, foldl_take]
  rfl

/-- A text that is neither a flag, nor one of the other options, nor a path, can only be the path of
settings. -/
theorem Says.mem_iff {text : String} (hs : Says arguments clauses)
    (hhead : text.toList.head? = some '-') (hflag : Flag.ofText? text = none)
    (hother : text ∉ ["--config", "-c", "-"]) : text ∈ arguments ↔ .settings text ∈ clauses := by
  simp only [List.mem_cons, List.not_mem_nil, or_false, not_or] at hother
  obtain ⟨hlong, hshort, hinput⟩ := hother
  induction hs with
  | nil => simp
  | @flag written flag _ _ hwritten _ ih =>
    have hne : text ≠ written := by
      rintro rfl
      rw [ofText?_eq_some_iff.mpr hwritten] at hflag
      cases hflag
    simp [hne, ih]
  | @settings written path _ _ hwritten _ _ ih =>
    have hne : text ≠ written := by
      rintro rfl
      exact hwritten.elim hlong hshort
    simp [hne, ih]
  | input _ ih => simp [hinput, ih]
  | @file path _ _ hpath _ ih =>
    have hne : text ≠ path := by
      rintro rfl
      exact hpath hhead
    simp [hne, ih]

theorem Says.asksForWork_iff (hs : Says arguments clauses) :
    AsksForWork arguments ↔
      ∀ text ∈ ["--help", "-h", "--version", "-v"], .settings text ∉ clauses := by
  refine forall₂_congr fun text htext => not_congr (hs.mem_iff ?_ ?_ ?_) <;>
    fin_cases htext <;> decide

/-- The same flags are there, the settings are read from the same path, and the same files are
listed in the same order. -/
structure AsksAlike (clauses more : List Clause) : Prop where
  flag_iff : ∀ flag, .flag flag ∈ clauses ↔ .flag flag ∈ more
  settings_eq : (clauses.filterMap Clause.settings?).getLast? =
    (more.filterMap Clause.settings?).getLast?
  files_eq : clauses.filterMap Clause.file? = more.filterMap Clause.file?

theorem AsksAlike.request_eq (h : AsksAlike clauses more)
    (hinput : .input ∈ clauses ↔ .input ∈ more) :
    (Progress.of clauses).request = (Progress.of more).request := by
  apply request_congr
  · intro flag
    rw [mem_flags_iff, mem_flags_iff, h.flag_iff]
  · exact h.settings_eq
  · rw [Bool.eq_iff_iff, input_eq_true_iff, input_eq_true_iff, hinput]
  · exact h.files_eq

/-- Whether the input is to be read is told by the files that are listed. -/
theorem AsksAlike.request_unique (h : AsksAlike clauses more) (hc : IsClear clauses)
    (hm : IsClear more) : (Progress.of clauses).request = (Progress.of more).request := by
  apply h.request_eq
  obtain ⟨-, hsource⟩ := isClear_iff.mp hc
  obtain ⟨-, hsource'⟩ := isClear_iff.mp hm
  have hpaths : (Progress.of clauses).paths = (Progress.of more).paths := h.files_eq
  rw [← input_eq_true_iff, ← input_eq_true_iff, hsource, hsource', hpaths]

end Requests

theorem exists_request_of_arguments_iff {arguments : List String} (h : AsksForWork arguments) :
    (∃ request, Request.ofArguments arguments = .ok request) ↔
      ∃ clauses, Says arguments clauses ∧ IsClear clauses := by
  constructor
  · rintro ⟨request, hrequest⟩
    obtain ⟨last, hlast, -⟩ := bind_eq_ok (ofArguments_eq h ▸ hrequest)
    obtain ⟨clauses, hclauses⟩ := exists_says_of_scan hlast
    rw [ofArguments_of_clauses h hclauses] at hrequest
    exact ⟨clauses, hclauses, isClear_iff.mpr (Progress.exists_request_iff.mp ⟨request, hrequest⟩)⟩
  · rintro ⟨clauses, hclauses, hclear⟩
    rw [ofArguments_of_clauses h hclauses]
    exact Progress.exists_request_iff.mpr (isClear_iff.mp hclear)

/-- Arguments are understood exactly if they say one clear thing after the other. What they ask for
hangs on the flags, the last path of settings and the order of the files alone. -/
theorem clear_arguments_are_understood {arguments : List String} (h : AsksForWork arguments) :
    ((∃ request, Request.ofArguments arguments = .ok request) ↔
        ∃ clauses, Says arguments clauses ∧ IsClear clauses) ∧
      ((∃ fault, Request.ofArguments arguments = .error fault) ↔
        ¬ ∃ clauses, Says arguments clauses ∧ IsClear clauses) ∧
      ∀ clauses, Says arguments clauses →
        (∀ other more request answer, AsksForWork other → Says other more →
          AsksAlike clauses more → Request.ofArguments arguments = .ok request →
            Request.ofArguments other = .ok answer → answer = request) ∧
        ∀ other more, Says other more → more.Perm clauses →
          more.filterMap Clause.settings? = clauses.filterMap Clause.settings? →
            more.filterMap Clause.file? = clauses.filterMap Clause.file? →
              Request.ofArguments other = Request.ofArguments arguments := by
  have hunderstood := exists_request_of_arguments_iff h
  refine ⟨hunderstood, ?_, fun clauses hclauses => ⟨?_, ?_⟩⟩
  · rw [← hunderstood]
    cases Request.ofArguments arguments <;> simp
  · intro other more request answer hother hmore halike hrequest hanswer
    rw [ofArguments_of_clauses h hclauses] at hrequest
    rw [ofArguments_of_clauses hother hmore] at hanswer
    have hclear := isClear_iff.mpr (Progress.exists_request_iff.mp ⟨request, hrequest⟩)
    have hclear' := isClear_iff.mpr (Progress.exists_request_iff.mp ⟨answer, hanswer⟩)
    rw [halike.request_unique hclear hclear', hanswer, Except.ok.injEq] at hrequest
    exact hrequest
  · intro other more hmore hperm hsettings hfiles
    have hother : AsksForWork other := by
      rw [hmore.asksForWork_iff]
      simpa only [hperm.mem_iff] using hclauses.asksForWork_iff.mp h
    have halike : AsksAlike more clauses :=
      ⟨fun flag => hperm.mem_iff, congrArg List.getLast? hsettings, hfiles⟩
    rw [ofArguments_of_clauses hother hmore, ofArguments_of_clauses h hclauses]
    exact halike.request_eq hperm.mem_iff

/-- The path of settings may look like a flag, and flags may stand anywhere among the paths. -/
theorem clear_arguments_are_understood_of_flag_as_path :
    AsksForWork ["-r", "--config", "--check", "lib", "-w", "App.xcodeproj"] ∧
      (∃ request, Request.ofArguments ["-r", "--config", "--check", "lib", "-w", "App.xcodeproj"] =
        .ok request) ∧
      Request.ofArguments ["lib", "-w", "App.xcodeproj", "-r", "--config", "--check"] =
        Request.ofArguments ["-r", "--config", "--check", "lib", "-w", "App.xcodeproj"] := by
  have hwork : AsksForWork ["-r", "--config", "--check", "lib", "-w", "App.xcodeproj"] := by
    decide
  have hsays : Says ["-r", "--config", "--check", "lib", "-w", "App.xcodeproj"]
      [.flag .recursive, .settings "--check", .file "lib", .flag .noWarnings,
        .file "App.xcodeproj"] :=
    .flag (by decide) (.settings (by decide) (by decide) (.file (by decide) (.flag (by decide)
      (.file (by decide) .nil))))
  have hother : Says ["lib", "-w", "App.xcodeproj", "-r", "--config", "--check"]
      [.file "lib", .flag .noWarnings, .file "App.xcodeproj", .flag .recursive,
        .settings "--check"] :=
    .file (by decide) (.flag (by decide) (.file (by decide) (.flag (by decide)
      (.settings (by decide) (by decide) .nil))))
  obtain ⟨hunderstood, -, hsame⟩ := clear_arguments_are_understood hwork
  refine ⟨hwork, hunderstood.mpr ⟨_, hsays, by decide, .inr ⟨⟨"lib", by decide⟩, by decide⟩⟩, ?_⟩
  exact (hsame _ hsays).2 _ _ hother (by decide) (by decide) (by decide)

end ProjectOrder.Command
