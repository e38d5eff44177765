import ProjectOrder.Disk.FileSystem
import ProjectOrder.Disk.Path

/-! A disk as a value, and its file system. -/
namespace ProjectOrder.Disk

/-- The names of the directories from the root down to a place, and the name at that place. -/
abbrev Location := List String

inductive Item where
  | file (content : List UInt8) (mode : Nat)
  | directory (mode : Nat)
  | link (target : String)
  deriving DecidableEq, Repr

inductive Effort where
  | create
  | write
  | sync
  | close
  | rename
  | remove
  deriving DecidableEq, Repr

/-- A failure of the system itself, at the place of a file. -/
structure Trouble where
  effort : Effort
  place : Location
  cause : Cause
  /-- How many bytes a write takes before it fails. -/
  taken : Nat := 0
  deriving DecidableEq, Repr

/-- All there is on a disk, with the files that are open. The root is a directory that need not be
listed. -/
structure Snapshot where
  items : List (Location × Item)
  rootMode : Nat := 0o755
  workingDirectory : Location
  /-- The permissions that new files do not get. -/
  umask : Nat
  temporaryTag : String
  opened : List (Handle × Location) := []
  troubles : List Trouble := []
  deriving DecidableEq, Repr

namespace Snapshot

def item? (disk : Snapshot) (place : Location) : Option Item :=
  if place = [] then some (.directory disk.rootMode) else disk.items.lookup place

def erase (disk : Snapshot) (place : Location) : Snapshot :=
  { disk with items := disk.items.filter (·.1 ≠ place) }

def put (disk : Snapshot) (place : Location) (item : Item) : Snapshot :=
  { disk.erase place with items := (place, item) :: (disk.erase place).items }

/-- Whether the owner may read what has this mode. To read a directory is to list it. -/
def isReadable (mode : Nat) : Bool :=
  mode.testBit 8

/-- Whether the owner of a directory with this mode may make and remove names in it. -/
def isWritable (mode : Nat) : Bool :=
  mode.testBit 7

def isSearchable (mode : Nat) : Bool :=
  mode.testBit 6

/-- Whether there is a directory at a place, with a mode that allows this. -/
def grants (disk : Snapshot) (allows : Nat → Bool) (place : Location) : Bool :=
  match disk.item? place with
  | some (.directory mode) => allows mode
  | _ => false

def isDirectory (disk : Snapshot) (place : Location) : Bool :=
  disk.grants (fun _ => true) place

/-- The steps that a path asks for. A slash at its end asks for a directory, by an empty step. -/
def steps (path : String) : List String :=
  Path.components path ++ if Path.endsInSlash path then [""] else []

def maxLinks : Nat :=
  40

def maxNameBytes : Nat :=
  255

/-- The place where steps lead, and what is there. Only the last step may lead to a place where
nothing is. A link at the end is followed if `follow` says so. -/
def walk (disk : Snapshot) (follow : Bool) (links : Nat) (base : Location) (path : List String) :
    Except Cause (Location × Option Item) :=
  match path with
  | [] => .ok (base, disk.item? base)
  | component :: rest =>
    if !disk.isDirectory base then .error .notADirectory
    else if component = "" then disk.walk follow links base rest
    else if !disk.grants isSearchable base then .error .accessDenied
    else if maxNameBytes < component.utf8ByteSize then .error .nameTooLong
    else if component = "." then disk.walk follow links base rest
    else if component = ".." then disk.walk follow links base.dropLast rest
    else
      let place := base ++ [component]
      match disk.item? place with
      | none => if rest = [] then .ok (place, none) else .error .notFound
      | some (.link target) =>
        if rest = [] ∧ !follow then .ok (place, some (.link target))
        else match links with
          | 0 => .error .linkLoop
          | links + 1 =>
            disk.walk follow links (if Path.isAbsolute target then [] else base)
              (steps target ++ rest)
      | some item => if rest = [] then .ok (place, some item) else disk.walk follow links place rest
termination_by (links, path.length)

def find (disk : Snapshot) (follow : Bool) (path : String) : Except Cause (Location × Option Item) :=
  if !Path.isPath path then .error (.notAPath path)
  else if path = "" then .error .notFound
  else
    let base := if Path.isAbsolute path then [] else disk.workingDirectory
    disk.walk follow maxLinks base (steps path)

def get (disk : Snapshot) (path : String) : Except Cause (Location × Item) :=
  match disk.find true path with
  | .ok (place, some item) => .ok (place, item)
  | .ok (_, none) => .error .notFound
  | .error cause => .error cause

def status (disk : Snapshot) (path : String) : Except Fault Status :=
  match disk.get path with
  | .ok (_, .file _ mode) => .ok { kind := .file, mode := mode % 0o1000 }
  | .ok (_, .directory mode) => .ok { kind := .directory, mode := mode % 0o1000 }
  | .ok (_, .link _) => .ok { kind := .other, mode := 0o777 }
  | .error cause => .error { cause, call := .status path }

def read (disk : Snapshot) (path : String) : Except Fault (List UInt8) :=
  let denied : Fault := { cause := .accessDenied, call := .openFile path }
  match disk.get path with
  | .ok (_, .file content mode) => if isReadable mode then .ok content else .error denied
  | .ok (_, .directory mode) =>
    if isReadable mode then .error { cause := .isADirectory, call := .readFile } else .error denied
  | .ok (_, .link _) => .error { cause := .isADirectory, call := .readFile }
  | .error cause => .error { cause, call := .openFile path }

/-- The names of the directories in the one at a place. A link to a directory is none. -/
def directoryNames (disk : Snapshot) (place : Location) : List String :=
  disk.items.filterMap fun
    | (below, .directory _) => if below.dropLast = place then below.getLast? else none
    | _ => none

theorem mem_directoryNames_iff {disk : Snapshot} {place : Location} {name : String} :
    name ∈ disk.directoryNames place ↔ ∃ mode, (place ++ [name], .directory mode) ∈ disk.items := by
  rw [directoryNames, List.mem_filterMap]
  constructor
  · intro h
    obtain ⟨⟨below, item⟩, hentry, h⟩ := h
    cases item with
    | directory mode =>
      simp only at h
      split at h
      · next hplace =>
        obtain ⟨init, rfl⟩ := List.getLast?_eq_some_iff.mp h
        exact ⟨mode, by simpa [← hplace] using hentry⟩
      · cases h
    | file | link => cases h
  · intro h
    obtain ⟨mode, hentry⟩ := h
    exact ⟨_, hentry, by simp⟩

def depth (disk : Snapshot) : Nat :=
  disk.items.foldr (fun entry deepest => max entry.1.length deepest) 0

theorem length_le_depth {disk : Snapshot} {place : Location} {item : Item}
    (h : (place, item) ∈ disk.items) : place.length ≤ disk.depth := by
  unfold depth
  generalize disk.items = items at h
  induction items with
  | nil => cases h
  | cons entry items ih =>
    rw [List.foldr_cons]
    rcases List.mem_cons.mp h with rfl | h
    · exact Nat.le_max_left ..
    · exact Nat.le_trans (ih h) (Nat.le_max_right ..)

/-- The ways from a place down to directories. What is in a directory is looked at only if `enter`
holds of its name. -/
def waysBelow (disk : Snapshot) (enter : String → Bool) (place : Location) : List (List String) :=
  (disk.directoryNames place).attach.flatMap fun ⟨name, _⟩ =>
    [name] ::
      if enter name then (disk.waysBelow enter (place ++ [name])).map (name :: ·) else []
termination_by disk.depth - place.length
decreasing_by
  obtain ⟨_, hentry⟩ := mem_directoryNames_iff.mp (by assumption)
  have hlength := length_le_depth hentry
  rw [List.length_append, List.length_singleton] at *
  omega

/-- Whether the directory down a way can be listed, and names be looked up in those before it. -/
def mayList (disk : Snapshot) (place : Location) : (way : List String) → Bool
  | [] => disk.grants isReadable place
  | name :: way => disk.grants isSearchable place && disk.mayList (place ++ [name]) way

/-- The directories inside one are searched from the last name to the first, and each of them before
those inside it. -/
def isSearchedBefore (way other : List String) : Bool :=
  (List.compareLex (fun name later => compare later name) way other).isLE

def firstClosed? (disk : Snapshot) (enter : String → Bool) (place : Location) :
    Option (List String) :=
  let searched := [] :: (disk.waysBelow enter place).filter (·.all enter)
  ((searched.filter (!disk.mayList place ·)).mergeSort isSearchedBefore).head?

def directoriesBelow (disk : Snapshot) (enter : String → Bool) (path : String) :
    Except Fault (List (List String)) :=
  match disk.get path with
  | .ok (place, .directory _) =>
    match disk.firstClosed? enter place with
    | none => .ok (disk.waysBelow enter place)
    | some way =>
      .error { cause := .accessDenied, call := .listDirectory (way.foldl Path.child path) }
  | .ok _ => .error { cause := .notADirectory, call := .listDirectory path }
  | .error cause => .error { cause, call := .listDirectory path }

def trouble? (disk : Snapshot) (effort : Effort) (place : Location) : Option Trouble :=
  disk.troubles.find? fun trouble => trouble.effort == effort && trouble.place == place

def freeHandle (disk : Snapshot) : Handle :=
  disk.opened.foldr (fun entry free => max (entry.1 + 1) free) 0

def openNew (disk : Snapshot) (place : Location) (mode : Nat) : Snapshot :=
  { disk.put place (.file [] mode) with opened := (disk.freeHandle, place) :: disk.opened }

def create (disk : Snapshot) (path : String) (mode : Nat) : Except Fault Handle × Snapshot :=
  let failure (cause : Cause) : Except Fault Handle × Snapshot :=
    (.error { cause, call := .openFile path }, disk)
  match disk.find false path with
  | .error cause => failure cause
  | .ok (_, some _) => failure .alreadyThere
  | .ok (place, none) =>
    if !disk.grants isWritable place.dropLast then failure .accessDenied
    else match disk.trouble? .create place with
      | some trouble => failure trouble.cause
      | none => (.ok disk.freeHandle, disk.openNew place (mode - (mode &&& disk.umask)))

/-- Adds to the end of the file at a place, if it is still there. -/
def extend (disk : Snapshot) (place : Location) (content : List UInt8) : Snapshot :=
  match disk.item? place with
  | some (.file before mode) => disk.put place (.file (before ++ content) mode)
  | _ => disk

/-- What the system answers to a call, by what goes wrong. -/
def answer (call : Call) : (trouble : Option Trouble) → Except Fault Unit
  | none => .ok ()
  | some trouble => .error { cause := trouble.cause, call }

def write (disk : Snapshot) (handle : Handle) (content : List UInt8) :
    Except Fault Unit × Snapshot :=
  match disk.opened.lookup handle with
  | none => (.error { cause := .badHandle, call := .write }, disk)
  | some place =>
    let trouble := disk.trouble? .write place
    let taken := trouble.elim content (content.take ·.taken)
    (answer .write trouble, disk.extend place taken)

def sync (disk : Snapshot) (handle : Handle) : Except Fault Unit :=
  match disk.opened.lookup handle with
  | none => .error { cause := .badHandle, call := .sync }
  | some place => answer .sync (disk.trouble? .sync place)

def close (disk : Snapshot) (handle : Handle) : Except Fault Unit × Snapshot :=
  match disk.opened.lookup handle with
  | none => (.error { cause := .badHandle, call := .close }, disk)
  | some place =>
    (answer .close (disk.trouble? .close place),
      { disk with opened := disk.opened.filter (·.1 ≠ handle) })

/-- The place for the file at `source` if it gets the name `path`. A name that can only be a
directory's is refused, and so is one that a directory has. -/
def renameTarget (disk : Snapshot) (source : Location) (path : String) : Except Cause Location := do
  if path = "" then throw .notFound
  let base := if Path.isAbsolute path then [] else disk.workingDirectory
  let (parent, _) ← disk.walk true maxLinks base ((Path.components path).dropLast ++ ["."])
  let name := Path.name path
  if name = "" ∨ name = "." ∨ name = ".." then throw .busy
  if Path.endsInSlash path then throw .notADirectory
  if parent ++ [name] = source then return source
  if !(disk.grants isWritable source.dropLast && disk.grants isWritable parent) then
    throw .accessDenied
  if disk.isDirectory (parent ++ [name]) then throw .isADirectory
  pure (parent ++ [name])

def rename (disk : Snapshot) (source target : String) : Except Fault Unit × Snapshot :=
  let failure (cause : Cause) : Except Fault Unit × Snapshot :=
    (.error { cause, call := .rename source target }, disk)
  match disk.find false source with
  | .error cause => failure cause
  | .ok (_, none) => failure .notFound
  | .ok (place, some item) =>
    match disk.renameTarget place target with
    | .error cause => failure cause
    | .ok goal =>
      match disk.trouble? .rename place with
      | some trouble => failure trouble.cause
      | none => (.ok (), (disk.erase place).put goal item)

def remove (disk : Snapshot) (path : String) : Except Fault Unit × Snapshot :=
  let failure (cause : Cause) : Except Fault Unit × Snapshot :=
    (.error { cause, call := .unlink path }, disk)
  match disk.find false path with
  | .ok (_, none) | .error .notFound => (.ok (), disk)
  | .error cause => (.error { cause, call := .linkStatus path }, disk)
  | .ok (_, some (.directory _)) => failure (.directoryToRemove path)
  | .ok (place, some _) =>
    if !disk.grants isWritable place.dropLast then failure .accessDenied
    else match disk.trouble? .remove place with
      | some trouble => failure trouble.cause
      | none => (.ok (), disk.erase place)

end Snapshot

def asking (f : Snapshot → Except Fault α) : ExceptT Fault (StateM Snapshot) α :=
  fun disk => (f disk, disk)

instance : FileSystem (StateM Snapshot) where
  workingDirectory := do return "/" ++ "/".intercalate (← get).workingDirectory
  status path := asking (·.status path)
  read path := asking (·.read path)
  directoriesBelow enter path := asking (·.directoriesBelow enter path)
  temporaryTag := do return (← get).temporaryTag
  create path mode := fun disk => disk.create path mode
  write handle content := fun disk => disk.write handle content
  sync handle := asking (·.sync handle)
  close handle := fun disk => disk.close handle
  rename source target := fun disk => disk.rename source target
  remove path := fun disk => disk.remove path

end ProjectOrder.Disk
