import ProjectOrder.Disk.FileSystem
import ProjectOrder.Disk.Path
import ProjectOrder.Settings.Basic
import ProjectOrder.Text.Utf8

/-! Where settings are read from. -/
namespace ProjectOrder.Settings
open ProjectOrder.Disk ProjectOrder.Text

def defaultFile : String :=
  "pbxsort.json"

inductive LoadFault where
  | settings (fault : Fault)
  | unreadable (fault : Disk.Fault)
  deriving DecidableEq, Repr

def LoadFault.message : LoadFault → Units
  | .settings fault => fault.message
  | .unreadable fault => fault.message

variable {m : Type → Type} [Monad m] [FileSystem m]

/-- Reads the settings in a file. Bytes that are no text are read as replacement characters. -/
def readFile (path : String) : ExceptT LoadFault m Settings := do
  let bytes ← (FileSystem.read path).adapt LoadFault.unreadable
  MonadExcept.ofExcept ((read (Utf8.decodeLossy bytes) path).mapError LoadFault.settings)

/-- Reads the settings in the file that `explicit` names, else in the one that the surroundings name
as `configured`, else in the default file. An empty name counts as no name, but hides `configured`. -/
def load (explicit configured : Option String) : ExceptT LoadFault m Settings := do
  let directory ← (FileSystem.workingDirectory : m String)
  let named := (explicit.or configured).getD ""
  let path := Path.absolute directory (if named = "" then defaultFile else named)
  if ← (isThere path : m Bool) then readFile path
  else if named = "" then pure builtIn
  else throw (.settings (.missing path))

end ProjectOrder.Settings
