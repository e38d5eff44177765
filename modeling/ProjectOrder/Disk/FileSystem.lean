import ProjectOrder.Disk.Fault

/-! The operations on files that the sorter needs of its surroundings. -/
namespace ProjectOrder.Disk

inductive FileKind where
  | file
  | directory
  | other
  deriving DecidableEq, Repr

structure Status where
  kind : FileKind
  /-- The permission bits. -/
  mode : Nat
  deriving DecidableEq, Repr

abbrev Handle := Nat

/-- Operations that follow symbolic links, if nothing else is said. -/
class FileSystem (m : Type → Type) where
  workingDirectory : m String
  status (path : String) : ExceptT Fault m Status
  read (path : String) : ExceptT Fault m (List UInt8)
  /-- The components of the way down to each directory inside another. A directory is entered only if
  `enter` holds of its name, and no link is followed on the way. -/
  directoriesBelow (enter : String → Bool) (path : String) : ExceptT Fault m (List (List String))
  /-- A part of a file name that no other program uses. -/
  temporaryTag : m String
  /-- Makes a file where nothing is yet, not even a link, and opens it. -/
  create (path : String) (mode : Nat) : ExceptT Fault m Handle
  /-- Writes to an open file. Some of the bytes may be taken even if it fails. -/
  write (handle : Handle) (content : List UInt8) : ExceptT Fault m Unit
  /-- Waits until all that was written is safe. -/
  sync (handle : Handle) : ExceptT Fault m Unit
  /-- Gives a handle back, even if it fails. -/
  close (handle : Handle) : ExceptT Fault m Unit
  /-- Gives a file another name, in place of the file or link that had it before. -/
  rename (source target : String) : ExceptT Fault m Unit
  /-- Removes a file or link, if there is one. -/
  remove (path : String) : ExceptT Fault m Unit

variable {m : Type → Type} [Monad m] [FileSystem m]

def kind? (path : String) : m (Option FileKind) := do
  match ← (FileSystem.status path).run with
  | .ok status => pure (some status.kind)
  | .error _ => pure none

def isThere (path : String) : m Bool := do
  return (← kind? path).isSome

end ProjectOrder.Disk
