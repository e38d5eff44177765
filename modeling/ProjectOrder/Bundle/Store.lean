import ProjectOrder.Audit.Verdict
import ProjectOrder.Bundle.Basic

/-! Reading, replacing, sorting and checking project files. -/
namespace ProjectOrder.Bundle
open ProjectOrder.Audit ProjectOrder.Disk ProjectOrder.Document ProjectOrder.Text

def decode (bytes : List UInt8) : Except Fault (List Char) :=
  match Utf8.decode? bytes with
  | some text => .ok text
  | none => .error .notText

variable {m : Type → Type} [Monad m] [FileSystem m]

def read (path : String) : ExceptT Fault m (List Char) := do
  let bytes ← (FileSystem.read path).adapt (Fault.unreadable path)
  MonadExcept.ofExcept (decode bytes)

def defaultMode : Nat :=
  0o644

def modeFor (path : String) : ExceptT Disk.Fault m Nat := do
  try return (← FileSystem.status path).mode
  catch fault => if fault.cause = .notFound then pure defaultMode else throw fault

/-- Why a file could not be written, and the handle that is still held. -/
structure Failure where
  fault : Disk.Fault
  held : Option Handle
  deriving DecidableEq, Repr

/-- Writes a file at `temporary` and gives it the name `path`. The handle is held until it has been
given back without a fault. -/
def writeAnew (temporary path : String) (content : List Char) : ExceptT Failure m Unit := do
  let before (fault : Disk.Fault) : Failure := { fault, held := none }
  let mode ← (modeFor path).adapt before
  let handle ← (FileSystem.create temporary mode).adapt before
  let holding (fault : Disk.Fault) : Failure := { fault, held := some handle }
  (FileSystem.write handle (Utf8.encode content)).adapt holding
  (FileSystem.sync handle).adapt holding
  (FileSystem.close handle).adapt holding
  (FileSystem.rename temporary path).adapt before

def clearUp (temporary : String) (held : Option Handle) : ExceptT Disk.Fault m Unit := do
  if let some handle := held then FileSystem.close handle
  FileSystem.remove temporary

/-- Replaces the file at `path` as a whole, by way of a file beside it. If a step fails, what it has
left is cleared up before its fault is thrown. -/
def replace (path : String) (content : List Char) : ExceptT Fault m Unit := do
  let tag ← (FileSystem.temporaryTag : m String)
  let name := Path.name path
  let temporary := Path.sibling path s!".{name}.{tag}.tmp"
  match ← (writeAnew temporary path content : ExceptT Failure m Unit).run with
  | .ok () => pure ()
  | .error failure =>
    (clearUp temporary failure.held).adapt Fault.notCleared
    throw (.unwritable path failure.fault)

structure FileOutcome where
  path : String
  alreadySorted : Bool
  written : Bool
  tallies : List Tally
  deriving DecidableEq, Repr

def sortContent (preferences : Preferences) (content : List Char) : Except Fault Outcome := do
  let options ← preferences.resolve.mapError Fault.options
  (sortText options content).mapError Fault.document

/-- Sorts the file at `path` in place. Nothing is written if it is sorted already, if it is only to be
checked, or if it cannot be sorted. -/
def sort (path : String) (preferences : Preferences) (checkOnly : Bool) :
    ExceptT Fault m FileOutcome := do
  let content ← read path
  let outcome ← MonadExcept.ofExcept (sortContent preferences content)
  let written := outcome.changed && !checkOnly
  if written then replace path outcome.text
  pure { path, alreadySorted := !outcome.changed, written, tallies := outcome.tallies }

def check (path : String) (preferences : Preferences) : ExceptT Fault m Verdict := do
  let content ← read path
  let options ← MonadExcept.ofExcept (preferences.resolve.mapError Fault.options)
  pure (audit options content)

end ProjectOrder.Bundle
