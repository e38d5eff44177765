import ProjectOrder.Json.Reader
import ProjectOrder.Settings.Fault

/-! Settings, which add to the built-in lists. -/
namespace ProjectOrder
open ProjectOrder.Json ProjectOrder.Text

/-- Names are kept as they are written, also those that hold halves of surrogate pairs. -/
structure Settings where
  ignoreCase : Bool
  knownFiles : List Units
  sortableSections : List Units
  /-- The path that the settings were read from, if they are not the built-in ones. -/
  source : Option String
  deriving DecidableEq, Repr

namespace Settings

def builtIn : Settings :=
  { ignoreCase := false
    knownFiles := defaultKnownFiles.map Units.ofString
    sortableSections := defaultSortableSections.map Units.ofString
    source := none }

def names? : Value → Option (List Units)
  | .array items => items.mapM fun
    | .string text => if text.list.isEmpty then none else some text
    | _ => none
  | _ => none

/-- Takes over one member. Names that are known already are not added again. -/
def set (settings : Settings) (source : String) (field : Units × Value) : Except Fault Settings :=
  match Key.ofText? field.1 with
  | none => .error (.unknownKey field.1 source)
  | some .caseInsensitive =>
    match field.2 with
    | .bool value => .ok { settings with ignoreCase := value }
    | _ => .error (.notABoolean source)
  | some .knownFiles =>
    match names? field.2 with
    | some names => .ok { settings with knownFiles := distinct (settings.knownFiles ++ names) }
    | none => .error (.notNames .knownFiles source)
  | some .sortableSections =>
    match names? field.2 with
    | some names =>
      .ok { settings with sortableSections := distinct (settings.sortableSections ++ names) }
    | none => .error (.notNames .sortableSections source)

def ofValue (value : Value) (source : String) : Except Fault Settings :=
  match value with
  | .object members => do
    let settings ← (fields members).foldlM (set · source) { builtIn with source }
    if Units.ofString Document.linkOrderedSection ∈ settings.sortableSections then
      throw (.options .linkOrderNotKept)
    pure settings
  | _ => .error (.notAnObject source)

/-- The settings that a text writes. Faults name `source` as its place. -/
def read (text : List Char) (source : String) : Except Fault Settings :=
  match parse? text with
  | some value => ofValue value source
  | none => .error (.notJson source)

/-- Options as the settings have them, unless `ignoreCase` says otherwise on letter case. What is no
text names no file and no section. -/
def options (settings : Settings) (ignoreCase : Option Bool) : Except Options.Fault Options :=
  Preferences.resolve {
    ignoreCase := some (ignoreCase.getD settings.ignoreCase)
    knownFiles := some (settings.knownFiles.filterMap Units.text?)
    sortableSections := some (settings.sortableSections.filterMap Units.text?) }

end Settings
end ProjectOrder
