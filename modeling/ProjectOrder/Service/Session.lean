import ProjectOrder.Command.Usage
import ProjectOrder.Service.Tool
import ProjectOrder.Settings.Source

/-! A session of the service: its start, and its answers to messages. The library that speaks the
protocol stands between the client and the service. -/
namespace ProjectOrder.Service
open ProjectOrder.Disk ProjectOrder.Document ProjectOrder.Json ProjectOrder.Text

inductive Request where
  | listTools
  | callTool (name : String) (arguments : Option Value)

/-- What a request comes to. A failure is what the error that was thrown says. -/
inductive Response where
  | result (value : Value)
  | failure (message : String)

structure Introduction where
  name : String
  version : String
  instructions : String

def introduction : Introduction :=
  { name := Command.programName
    version := Command.version
    instructions :=
      "Use sort_project after editing an Xcode project.pbxproj to canonicalize its order. " ++
        "Use check_project to see which regions are unsorted without writing. " ++
        "Frameworks build phases are never reordered." }

/-- The library that reads messages and words the replies to them. A message that asks nothing of the
service gets a reply without a response. -/
structure Library (Message Reply : Type) where
  request? : Message → Option Request
  reply : Message → Option Response → Reply

def logLine (text : Units) : Units :=
  s!"[{Command.programName}] " ++ text

def startLog (settings : Settings) : List Units :=
  let source := settings.source.getD "built-in defaults"
  let sections := settings.sortableSections.length
  let files := settings.knownFiles.length
  let letterCase := if settings.ignoreCase then "case-insensitive" else "case-sensitive"
  [logLine s!"config: {source}",
    logLine s!"{sections} sortable section(s), {files} known file(s), {letterCase}",
    logLine s!"never reordered: {linkOrderedSection}",
    logLine "MCP server listening on stdio"]

def failureLog (fault : Settings.LoadFault) : List Units :=
  [logLine ("cannot start: " ++ fault.message)]

def toolList : Value :=
  .object [("tools", .array (Tool.all.map Tool.form))]

def content (text : Units) : Value :=
  .object [("content", .array [.object [("type", .string "text"), ("text", .string text)]])]

variable {m : Type → Type} [Monad m] [FileSystem m]

def callTool (settings : Settings) (name : String) (arguments : Option Value) :
    ExceptT Fault m Units :=
  match Tool.ofName? name with
  | some tool => tool.call settings arguments
  | none => throw (.unknownTool name)

def handle (settings : Settings) : Request → m Response
  | .listTools => pure (.result toolList)
  | .callTool name arguments => do
    match ← (callTool settings name arguments : ExceptT Fault m Units).run with
    | .ok text => pure (.result (content text))
    | .error fault => pure (.failure fault.message)

section Sessions
variable {Message Reply : Type}

def respond (library : Library Message Reply) (settings : Settings) (message : Message) :
    m Reply := do
  match library.request? message with
  | none => pure (library.reply message none)
  | some request => pure (library.reply message (some (← handle settings request)))

/-- Replies to messages one after the other, all under the same settings. -/
def respondAll (library : Library Message Reply) (settings : Settings) (messages : List Message) :
    m (List Reply) :=
  messages.mapM (respond library settings)

structure Transcript (Reply : Type) where
  started : Bool
  log : List Units
  replies : List Reply

/-- A session from its start. The settings are read once. -/
def converse (introduced : Introduction → Library Message Reply) (configured : Option String)
    (messages : List Message) : m (Transcript Reply) := do
  match ← (Settings.load none configured : ExceptT _ m _).run with
  | .error fault => pure { started := false, log := failureLog fault, replies := [] }
  | .ok settings =>
    pure { started := true
           log := startLog settings
           replies := ← respondAll (introduced introduction) settings messages }

end Sessions
end ProjectOrder.Service
