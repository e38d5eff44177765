import ProjectOrder.Bundle.Store
import ProjectOrder.Json.Printer
import ProjectOrder.Settings.Basic

/-! The tools that the service offers. -/
namespace ProjectOrder.Service
open ProjectOrder.Audit ProjectOrder.Disk ProjectOrder.Document ProjectOrder.Json
open ProjectOrder.Text

inductive Tool where
  | sortProject
  | checkProject
  | sortText
  | listRules
  deriving DecidableEq, Repr

def Tool.all : List Tool :=
  [.sortProject, .checkProject, .sortText, .listRules]

def Tool.name : Tool → String
  | .sortProject => "sort_project"
  | .checkProject => "check_project"
  | .sortText => "sort_text"
  | .listRules => "list_rules"

def Tool.ofName? (name : String) : Option Tool :=
  Tool.all.find? (·.name == name)

def Tool.description : Tool → String
  | .sortProject =>
    "Sort arrays and safe sections of a project.pbxproj in place. Removes duplicate entries. " ++
      "Atomic write."
  | .checkProject => "Report unsorted regions and duplicates in a project.pbxproj. Never writes."
  | .sortText => "Sort project.pbxproj content passed inline. Returns the sorted text."
  | .listRules => "List sorted arrays, sorted sections, protected sections, and known files"

def Tool.subject? : Tool → Option (String × String)
  | .sortProject | .checkProject =>
    some ("file_path", "Path to project.pbxproj or its .xcodeproj bundle")
  | .sortText => some ("text", "Full project.pbxproj content")
  | .listRules => none

def caseArgument : String :=
  "case_insensitive"

def property (type description : String) : Value :=
  .object [("type", .string type), ("description", .string description)]

def Tool.inputForm (tool : Tool) : Value :=
  match tool.subject? with
  | none => .object [("type", .string "object"), ("properties", .object [])]
  | some (subject, description) => .object [
      ("type", .string "object"),
      ("properties", .object [
        (subject, property "string" description),
        (caseArgument, property "boolean"
          "Case-insensitive natural sort. Defaults to the configured mode.")]),
      ("required", .array [.string subject])]

def Tool.form (tool : Tool) : Value :=
  .object [
    ("name", .string tool.name),
    ("description", .string tool.description),
    ("inputSchema", tool.inputForm)]

inductive Fault where
  | invalidArguments (subject : String)
  | notSorted (fault : Bundle.Fault)
  | notChecked (fault : Bundle.Fault)
  | textNotSorted (fault : Bundle.Fault)
  | unknownTool (name : String)
  deriving DecidableEq, Repr

def Fault.message : Fault → String
  | .invalidArguments subject =>
    s!"Invalid arguments: expected \x7b {subject}: string, {caseArgument}?: boolean \x7d"
  | .notSorted fault => "Failed to sort project: " ++ fault.message
  | .notChecked fault => "Failed to check project: " ++ fault.message
  | .textNotSorted fault => "Failed to sort text: " ++ fault.message
  | .unknownTool name => s!"Unknown tool: {name}"

/-- The arguments of a tool that works on a subject. A letter case mode that is there must be a
truth value. -/
def readArguments (subject : String) (arguments : Option Value) :
    Except Fault (String × Option Bool) :=
  match arguments.bind (·.field? subject), arguments.bind (·.field? caseArgument) with
  | some (.string text), none => .ok (text.shown, none)
  | some (.string text), some (.bool ignoreCase) => .ok (text.shown, some ignoreCase)
  | _, _ => .error (.invalidArguments subject)

def kindText : RegionKind → String
  | .array => "array"
  | .section => "section"
  | .verbatim => "verbatim"
  | .linkOrdered => "protected"

def summary (outcome : Bundle.FileOutcome) : Value :=
  let region (tally : Tally) : Value := .object [
    ("kind", .string (kindText tally.kind)),
    ("name", .string tally.name),
    ("line", .int tally.line),
    ("duplicatesRemoved", .nat tally.duplicates),
    ("reordered", .bool tally.reordered)]
  .object [
    ("file", .string outcome.path),
    ("alreadySorted", .bool outcome.alreadySorted),
    ("written", .bool outcome.written),
    ("changedRegions", .array ((outcome.tallies.filter Tally.isChange).map region))]

def settingsOptions (settings : Settings) (ignoreCase : Option Bool) : Except Bundle.Fault Options :=
  (settings.options ignoreCase).mapError Bundle.Fault.options

def bullets (items : List Units) : Units :=
  Units.join "\n" (items.map ("- " ++ ·))

def rulesText (settings : Settings) : Units :=
  let arrays := ArrayKey.all.map fun key => Units.ofString
    (key.text ++ if key.holdsFiles then " (by name only)" else " (directory-like names first)")
  let ignoreCase := if settings.ignoreCase then "yes" else "no"
  let source := settings.source.getD "built-in defaults"
  "# Sorting Rules

## Sorted Arrays

" ++ bullets arrays ++ "

## Sorted Sections

" ++ bullets settings.sortableSections ++ s!"

## Never Sorted

- {linkOrderedSection} (link order)
- Every other section is copied unchanged

## Known Extension-less Files

" ++ bullets settings.knownFiles ++ s!"

## Mode

- Case-insensitive: {ignoreCase}
- Configuration: {source}
"

def sortInline (settings : Settings) (arguments : Option Value) : Except Fault Units := do
  let (text, ignoreCase) ← readArguments "text" arguments
  let sorted := do
    let options ← settingsOptions settings ignoreCase
    Bundle.sortContent options.preferences text.toList
  match sorted with
  | .ok outcome => pure (String.ofList outcome.text : String)
  | .error fault => throw (.textNotSorted fault)

variable {m : Type → Type} [Monad m] [FileSystem m]

def sortFile (settings : Settings) (arguments : Option Value) : ExceptT Fault m Units := do
  let (path, ignoreCase) ← MonadExcept.ofExcept (readArguments "file_path" arguments)
  let sorting : ExceptT Bundle.Fault m Units := do
    let file ← MonadExcept.ofExcept (Bundle.resolve path)
    let options ← MonadExcept.ofExcept (settingsOptions settings ignoreCase)
    return (summary (← Bundle.sort file options.preferences false)).pretty
  sorting.adapt Fault.notSorted

def checkFile (settings : Settings) (arguments : Option Value) : ExceptT Fault m Units := do
  let (path, ignoreCase) ← MonadExcept.ofExcept (readArguments "file_path" arguments)
  let checking : ExceptT Bundle.Fault m Units := do
    let file ← MonadExcept.ofExcept (Bundle.resolve path)
    let options ← MonadExcept.ofExcept (settingsOptions settings ignoreCase)
    return (← Bundle.check file options.preferences).render file
  checking.adapt Fault.notChecked

def Tool.call (tool : Tool) (settings : Settings) (arguments : Option Value) :
    ExceptT Fault m Units :=
  match tool with
  | .sortProject => sortFile settings arguments
  | .checkProject => checkFile settings arguments
  | .sortText => MonadExcept.ofExcept (sortInline settings arguments)
  | .listRules => pure (rulesText settings)

end ProjectOrder.Service
