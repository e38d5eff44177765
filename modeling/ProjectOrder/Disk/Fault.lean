import ProjectOrder.Text.Quoted

/-! What a file system reports when it cannot do as asked. -/
namespace ProjectOrder.Disk

inductive Cause where
  | notFound
  | notADirectory
  | isADirectory
  | alreadyThere
  | busy
  | linkLoop
  | nameTooLong
  | accessDenied
  | badHandle
  /-- The text is no path, as there is a NUL in it. -/
  | notAPath (text : String)
  /-- A directory stands where a file was to be removed. -/
  | directoryToRemove (path : String)
  /-- Any other cause, in the words of the system. -/
  | other (text : String)
  deriving DecidableEq, Repr

def Cause.text : Cause → String
  | .notFound => "ENOENT: no such file or directory"
  | .notADirectory => "ENOTDIR: not a directory"
  | .isADirectory => "EISDIR: illegal operation on a directory"
  | .alreadyThere => "EEXIST: file already exists"
  | .busy => "EBUSY: resource busy or locked"
  | .linkLoop => "ELOOP: too many symbolic links encountered"
  | .nameTooLong => "ENAMETOOLONG: name too long"
  | .accessDenied => "EACCES: permission denied"
  | .badHandle => "EBADF: bad file descriptor"
  | .notAPath text =>
    let shown := String.ofList (Text.excerpt text.toList)
    "The argument 'path' must be a string, Uint8Array, or URL without null bytes. Received " ++ shown
  | .directoryToRemove path => s!"Path is a directory: rm returned EISDIR (is a directory) {path}"
  | .other text => text

/-- Whether the text of a cause stands alone, as no call of the system was made. -/
def Cause.standsAlone : Cause → Bool
  | .notAPath _ | .directoryToRemove _ => true
  | _ => false

inductive Call where
  | openFile (path : String)
  | readFile
  | write
  | sync
  | close
  | listDirectory (path : String)
  | status (path : String)
  /-- The status of a link itself, not of what it leads to. -/
  | linkStatus (path : String)
  | rename (source target : String)
  | unlink (path : String)
  deriving DecidableEq, Repr

def Call.text : Call → String
  | .openFile path => s!"open '{path}'"
  | .readFile => "read"
  | .write => "write"
  | .sync => "fsync"
  | .close => "close"
  | .listDirectory path => s!"scandir '{path}'"
  | .status path => s!"stat '{path}'"
  | .linkStatus path => s!"lstat '{path}'"
  | .rename source target => s!"rename '{source}' -> '{target}'"
  | .unlink path => s!"unlink '{path}'"

structure Fault where
  cause : Cause
  call : Call
  deriving DecidableEq, Repr

def Fault.message (fault : Fault) : String :=
  if fault.cause.standsAlone then fault.cause.text
  else fault.cause.text ++ ", " ++ fault.call.text

end ProjectOrder.Disk
