import ProjectOrder.Disk.FileSystem
import ProjectOrder.Disk.Path
import ProjectOrder.Settings.Options
import ProjectOrder.Document.Fault
import ProjectOrder.Text.Utf8
import ProjectOrder.Text.Utf16

/-! Xcode bundles and the project file inside each of them. -/
namespace ProjectOrder.Bundle
open ProjectOrder.Disk ProjectOrder.Text

def projectFile : String :=
  "project.pbxproj"

def ending : String :=
  ".xcodeproj"

inductive Fault where
  | notAProject (path : String)
  | unreadable (path : String) (fault : Disk.Fault)
  | notText
  | unwritable (path : String) (fault : Disk.Fault)
  /-- A file could not be written, nor could what is left of the attempt be removed. -/
  | notCleared (fault : Disk.Fault)
  | options (fault : Options.Fault)
  | document (fault : Document.Fault)
  deriving DecidableEq, Repr

def Fault.message : Fault → String
  | .notAProject path => s!"Not an Xcode project file: {path}"
  | .unreadable path fault =>
    let cause := fault.message
    s!"Could not read {path}: {cause}"
  | .notText => "Content is not valid UTF-8"
  | .unwritable path fault =>
    let cause := fault.message
    s!"Failed to write {path}: {cause}"
  | .notCleared fault => fault.message
  | .options fault => fault.message
  | .document fault => fault.message

/-- The path of the project file that a path means: its own, or that inside a bundle. -/
def resolve (path : String) : Except Fault String :=
  let file := if Path.endsWith ending (Path.name path) then Path.child path projectFile else path
  if Path.name file = projectFile then .ok file else .error (.notAProject file)

def isSearched (name : String) : Bool :=
  name.toList.head? != some '.' && name != "node_modules"

def isEntered (name : String) : Bool :=
  isSearched name && !Path.endsWith ending name

def bundlesAmong (ways : List (List String)) : List (List String) :=
  ways.filter fun way => way.getLast?.any fun name => isSearched name && Path.endsWith ending name

variable {m : Type → Type} [Monad m] [FileSystem m]

def bundlesFrom (root name : String) : ExceptT Disk.Fault m (List String) := do
  let path := Path.child root name
  if Path.endsWith ending name then pure [path]
  else
    let ways ← FileSystem.directoriesBelow isEntered path
    pure ((bundlesAmong ways).map (·.foldl Path.child path))

/-- The project files in all bundles below `root`, by the order of their 16-bit units. Hidden
directories, links and the insides of bundles are not searched. The directories in the root are
searched from the last name to the first, so that the first fault is that of the last of them. -/
def discover (root : String) : ExceptT Disk.Fault m (List String) := do
  let top ← FileSystem.directoriesBelow (fun _ => false) root
  let names := (top.flatten.filter isSearched).mergeSort fun a b => (compare b a).isLE
  let bundles ← names.mapM (bundlesFrom root)
  let files := bundles.flatten.map (Path.child · projectFile)
  let there ← files.filterM fun file => (isThere file : m Bool)
  pure (there.mergeSort fun a b =>
    (Utf16.compareUnits (Utf16.encode a.toList) (Utf16.encode b.toList)).isLE)

end ProjectOrder.Bundle
