import ProjectOrder.Proofs.KeptNames
import ProjectOrder.Proofs.ProjectSorts
import ProjectOrder.Proofs.Requests
import ProjectOrder.Service.Session

/-! What a session of the service answers, under the settings that it has started with, and that it
writes nothing but the project files that it is asked to sort. -/
namespace ProjectOrder.Service
open ProjectOrder.Audit ProjectOrder.Bundle ProjectOrder.Disk ProjectOrder.Document
open ProjectOrder.Json ProjectOrder.Text

/-- The request calls a tool with these arguments. -/
def Request.Calls (request : Request) (tool : Tool) (arguments : Option Value) : Prop :=
  ∃ name, request = .callTool name arguments ∧ Tool.ofName? name = some tool

/-- The arguments name a project file, and perhaps a letter case mode. -/
def NamesFile (arguments : Option Value) (file : String) (ignoreCase : Option Bool) : Prop :=
  ∃ path, readArguments "file_path" arguments = .ok (path, ignoreCase) ∧ resolve path = .ok file

/-- What a request comes to under the settings, and the disk that is left. A call that fails changes
nothing, and tells why the tool has failed under the same settings. -/
inductive Answers (settings : Settings) (disk : Snapshot) (request : Request) :
    Response → Snapshot → Prop
  | listed : request = .listTools → Answers settings disk request (.result toolList) disk
  | sorted {arguments : Option Value} {file : String} {ignoreCase : Option Bool} {options : Options}
      {result : FileOutcome} {after : Snapshot} :
    request.Calls .sortProject arguments → NamesFile arguments file ignoreCase →
      settings.options ignoreCase = .ok options →
      SortsFile file options.preferences false disk after result →
      Answers settings disk request (.result (content (summary result).pretty)) after
  | checked {arguments : Option Value} {file : String} {ignoreCase : Option Bool}
      {options : Options} {text : List Char} :
    request.Calls .checkProject arguments → NamesFile arguments file ignoreCase →
      settings.options ignoreCase = .ok options → (outcome (read file) disk).1 = .ok text →
      Answers settings disk request
        (.result (content (Units.ofString ((audit options text).render file)))) disk
  | sortedText {arguments : Option Value} {text : String} {ignoreCase : Option Bool}
      {options : Options} {sorted : Outcome} :
    request.Calls .sortText arguments → readArguments "text" arguments = .ok (text, ignoreCase) →
      settings.options ignoreCase = .ok options →
      Document.sortText options text.toList = .ok sorted →
      Answers settings disk request
        (.result (content (Units.ofString (String.ofList sorted.text)))) disk
  | rules {arguments : Option Value} :
    request.Calls .listRules arguments →
      Answers settings disk request (.result (content (rulesText settings))) disk
  | failed {tool : Tool} {arguments : Option Value} {fault : Fault} :
    request.Calls tool arguments → (outcome (tool.call settings arguments) disk).1 = .error fault →
      Answers settings disk request (.failure fault.message) disk
  | unknown {name : String} {arguments : Option Value} :
    request = .callTool name arguments → Tool.ofName? name = none →
      Answers settings disk request (.failure (Fault.unknownTool name).message) disk

section Messages
variable {Message Reply : Type}

/-- How a message is replied to, with what it comes to if it asks for something. -/
inductive Replies (library : Library Message Reply) (settings : Settings) (disk : Snapshot)
    (message : Message) : Reply → Snapshot → Prop
  | unasked : library.request? message = none →
    Replies library settings disk message (library.reply message none) disk
  | answered {request : Request} {response : Response} {after : Snapshot} :
    library.request? message = some request → Answers settings disk request response after →
      Replies library settings disk message (library.reply message (some response)) after

end Messages

section Tools
variable {settings : Settings} {arguments : Option Value} {disk : Snapshot} {file : String}
  {ignoreCase : Option Bool} {options : Options}

section OnFile
variable (told : Bundle.Fault → Fault)
  (act : String → Options → ExceptT Bundle.Fault (StateM Snapshot) Units)

end OnFile

end Tools

section Requests
variable {settings : Settings} {request : Request} {disk : Snapshot}

theorem Answers.keepsNames {response : Response} {after : Snapshot}
    (h : Answers settings disk request response after) : KeepsNames disk after := by
  cases h with
  | sorted hcalls hn ho hs => exact hs.keepsNames
  | listed | checked | sortedText | rules | failed | unknown => exact .refl disk

end Requests

section Runs
variable {Message Reply : Type} {library : Library Message Reply} {settings : Settings}
  {message : Message} {reply : Reply} {disk after : Snapshot}

theorem Replies.keepsNames (h : Replies library settings disk message reply after) :
    KeepsNames disk after := by
  cases h with
  | unasked => exact .refl disk
  | answered _ hanswers => exact hanswers.keepsNames

end Runs

section Sessions
variable {Message Reply : Type} {introduced : Introduction → Library Message Reply}
  {disk : Snapshot} {configured : Option String} {messages : List Message}

end Sessions

section RootCalls
variable {id : Nat} {tool : String} {file : String}

end RootCalls

section UnsortedProject
variable {troubles : List Trouble}

end UnsortedProject

end ProjectOrder.Service
