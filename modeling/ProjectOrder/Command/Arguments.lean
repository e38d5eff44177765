/-! The arguments of the command line. -/
namespace ProjectOrder.Command

inductive Flag where
  | check
  | ignoreCase
  | heedCase
  | noWarnings
  | recursive
  | failFast
  deriving DecidableEq, Repr

def Flag.ofText? (text : String) : Option Flag :=
  if text = "--check" then some .check
  else if text = "--case-insensitive" then some .ignoreCase
  else if text = "--case-sensitive" then some .heedCase
  else if text = "--no-warnings" ∨ text = "-w" then some .noWarnings
  else if text = "--recursive" ∨ text = "-r" then some .recursive
  else if text = "--fail-fast" then some .failFast
  else none

structure Wishes where
  checkOnly : Bool := false
  /-- The letter case mode, if one of the two flags for it is there. -/
  ignoreCase : Option Bool := none
  warnings : Bool := true
  recursive : Bool := false
  failFast : Bool := false
  settingsPath : Option String := none
  deriving DecidableEq, Repr

inductive Request where
  | help
  | version
  | sortFiles (paths : List String) (wishes : Wishes)
  | sortInput (wishes : Wishes)
  deriving DecidableEq, Repr

inductive Fault where
  | settingsPathMissing
  | unknownOption (text : String)
  | bothCaseModes
  | inputAmongFiles
  | nothingListed
  deriving DecidableEq, Repr

def Fault.message : Fault → String
  | .settingsPathMissing => "--config requires a path argument"
  | .unknownOption text => s!"Unknown option: {text}"
  | .bothCaseModes => "--case-insensitive and --case-sensitive are mutually exclusive"
  | .inputAmongFiles => "- (stdin) cannot be combined with file arguments"
  | .nothingListed => "No Xcode project files (project.pbxproj) listed on the command line"

structure Progress where
  flags : List Flag := []
  settingsPath : Option String := none
  input : Bool := false
  paths : List String := []
  deriving DecidableEq, Repr

/-- Reads arguments from left to right. The option for settings takes the next argument, whatever it is. -/
def scan (seen : Progress) : List String → Except Fault Progress
  | [] => .ok seen
  | argument :: rest =>
    match Flag.ofText? argument with
    | some flag => scan { seen with flags := seen.flags ++ [flag] } rest
    | none =>
      if argument = "--config" ∨ argument = "-c" then
        match rest with
        | [] => .error .settingsPathMissing
        | path :: rest =>
          if path = "" then .error .settingsPathMissing
          else scan { seen with settingsPath := some path } rest
      else if argument = "-" then scan { seen with input := true } rest
      else if argument.toList.head? = some '-' then .error (.unknownOption argument)
      else scan { seen with paths := seen.paths ++ [argument] } rest

def Progress.wishes (seen : Progress) : Wishes :=
  { checkOnly := seen.flags.contains .check
    ignoreCase :=
      if seen.flags.contains .ignoreCase then some true
      else if seen.flags.contains .heedCase then some false
      else none
    warnings := !seen.flags.contains .noWarnings
    recursive := seen.flags.contains .recursive
    failFast := seen.flags.contains .failFast
    settingsPath := seen.settingsPath }

def Progress.request (seen : Progress) : Except Fault Request :=
  if seen.flags.contains .ignoreCase && seen.flags.contains .heedCase then .error .bothCaseModes
  else if seen.input then
    if seen.paths = [] then .ok (.sortInput seen.wishes) else .error .inputAmongFiles
  else if seen.paths = [] then .error .nothingListed
  else .ok (.sortFiles seen.paths seen.wishes)

/-- What the arguments ask for. Help and version are answered whatever else is there. -/
def Request.ofArguments (arguments : List String) : Except Fault Request :=
  if arguments.contains "--help" || arguments.contains "-h" then .ok .help
  else if arguments.contains "--version" || arguments.contains "-v" then .ok .version
  else scan {} arguments >>= Progress.request

end ProjectOrder.Command
