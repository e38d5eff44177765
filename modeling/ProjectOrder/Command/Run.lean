import ProjectOrder.Bundle.Store
import ProjectOrder.Command.Arguments
import ProjectOrder.Command.Usage
import ProjectOrder.Settings.Source

/-! Running the command line. -/
namespace ProjectOrder.Command
open ProjectOrder.Audit ProjectOrder.Disk ProjectOrder.Document ProjectOrder.Text

/-- The exit status: all is well, something is not sorted or was asked for wrongly, or a file failed. -/
inductive Exit where
  | ok
  | unsorted
  | failed
  deriving DecidableEq, Repr

def Exit.code : Exit → Nat
  | .ok => 0
  | .unsorted => 1
  | .failed => 2

/-- What a run leaves behind, beside the files that it sorted. A fault ends it early. -/
structure Result where
  exit : Except Disk.Fault Exit
  output : List Char := []
  /-- Messages, each of which may have more than one line. -/
  notices : List Units := []

structure Targets where
  files : List String
  /-- How many of the listed files are not there. -/
  missing : Nat
  notices : List Units
  deriving DecidableEq, Repr

def warning (wishes : Wishes) (text : String) : List Units :=
  if wishes.warnings then [s!"WARNING: {text}"] else []

variable {m : Type → Type} [Monad m] [FileSystem m]

def targetsOf (wishes : Wishes) (path : String) : ExceptT Disk.Fault m Targets := do
  let isBundle := Path.endsWith Bundle.ending (Path.name path)
  if wishes.recursive && !isBundle && (← (kind? path : m _)) == some .directory then
    let files ← Bundle.discover path
    let notices :=
      if files.isEmpty then warning wishes s!"No Xcode projects found under {path}" else []
    pure { files, missing := 0, notices }
  else
    match Bundle.resolve path with
    | .error fault => pure { files := [], missing := 0, notices := warning wishes fault.message }
    | .ok file =>
      if (← (kind? file : m _)) == some .file then pure { files := [file], missing := 0, notices := [] }
      else pure { files := [], missing := 1, notices := [s!"ERROR: File not found: {file}"] }

def collect (wishes : Wishes) : (paths : List String) → m (Targets × Option Disk.Fault)
  | [] => pure ({ files := [], missing := 0, notices := [] }, none)
  | path :: rest => do
    match ← (targetsOf wishes path : ExceptT Disk.Fault m Targets).run with
    | .error fault => pure ({ files := [], missing := 0, notices := [] }, some fault)
    | .ok here =>
      let (later, fault) ← collect wishes rest
      pure ({ files := here.files ++ later.files
              missing := here.missing + later.missing
              notices := here.notices ++ later.notices }, fault)

/-- How sorting went: files that failed, files that are not in order, what was noticed, and the fault
that ended it before its time, if one did. -/
structure Work where
  failed : Nat := 0
  unsorted : Nat := 0
  notices : List Units := []
  fault : Option Disk.Fault := none
  deriving DecidableEq, Repr

def sortEach (options : Options) (wishes : Wishes) : (files : List String) → m Work
  | [] => pure {}
  | file :: rest => do
    match ← (Bundle.sort file options.preferences wishes.checkOnly : ExceptT _ m _).run with
    | .error (.notCleared fault) => pure { fault }
    | .error fault =>
      let message := fault.message
      let notice := s!"ERROR: {file}: {message}"
      if wishes.failFast then pure { failed := 1, notices := [notice] }
      else
        let later ← sortEach options wishes rest
        pure { later with failed := later.failed + 1, notices := notice :: later.notices }
    | .ok outcome =>
      let later ← sortEach options wishes rest
      if wishes.checkOnly && !outcome.alreadySorted then
        let report := (Verdict.ofTallies outcome.tallies false).render file
        pure { later with unsorted := later.unsorted + 1, notices := report :: later.notices }
      else pure later

def sortFiles (options : Options) (wishes : Wishes) (paths : List String) : m Result := do
  match ← collect wishes paths with
  | (targets, some fault) => pure { exit := .error fault, notices := targets.notices }
  | (targets, none) =>
    if targets.missing > 0 && wishes.failFast then
      pure { exit := .ok .failed, notices := targets.notices }
    else
      let work ← sortEach options wishes targets.files
      let exit := match work.fault with
        | some fault => .error fault
        | none =>
          if targets.missing + work.failed > 0 then .ok .failed
          else if work.unsorted > 0 then .ok .unsorted
          else .ok .ok
      pure { exit, notices := targets.notices ++ work.notices }

/-- The name under which reports show the standard input. -/
def inputName : String :=
  "<stdin>"

def sortInput (options : Options) (wishes : Wishes) (bytes : List UInt8) : Result :=
  match Bundle.decode bytes >>= Bundle.sortContent options.preferences with
  | .error fault =>
    let message := fault.message
    { exit := .ok .failed, notices := [s!"ERROR: {inputName}: {message}"] }
  | .ok outcome =>
    if !wishes.checkOnly then { exit := .ok .ok, output := outcome.text }
    else if outcome.changed then
      let report := (Verdict.ofTallies outcome.tallies false).render inputName
      { exit := .ok .unsorted, notices := [report] }
    else { exit := .ok .ok }

def optionsFor (wishes : Wishes) (configured : Option String) :
    ExceptT Settings.LoadFault m Options := do
  let settings ← Settings.load wishes.settingsPath configured
  MonadExcept.ofExcept ((settings.options wishes.ignoreCase).mapError fun fault =>
    Settings.LoadFault.settings (.options fault))

def withOptions (wishes : Wishes) (configured : Option String) (work : Options → m Result) :
    m Result := do
  match ← (optionsFor wishes configured : ExceptT _ m _).run with
  | .ok options => work options
  | .error (.settings fault) =>
    pure { exit := .ok .unsorted, notices := ["ERROR: " ++ fault.message] }
  | .error (.unreadable fault) => pure { exit := .error fault }

/-- Runs the command line. `configured` is the path of settings that the surroundings name, and
`input` reads what is passed in. -/
def run (arguments : List String) (configured : Option String) (input : m (List UInt8)) :
    m Result :=
  match Request.ofArguments arguments with
  | .error fault =>
    let message := fault.message
    pure { exit := .ok .unsorted, notices := [s!"Error: {message}", usage] }
  | .ok .help => pure { exit := .ok .ok, notices := [usage] }
  | .ok .version => pure { exit := .ok .ok, output := s!"{programName} {version}\n".toList }
  | .ok (.sortFiles paths wishes) =>
    withOptions wishes configured fun options => sortFiles options wishes paths
  | .ok (.sortInput wishes) =>
    withOptions wishes configured fun options => return sortInput options wishes (← input)

end ProjectOrder.Command
