import ProjectOrder.Settings.Options
import ProjectOrder.Text.Units

/-! What can be wrong with settings. -/
namespace ProjectOrder.Settings
open ProjectOrder.Text

inductive Key where
  | caseInsensitive
  | knownFiles
  | sortableSections
  deriving DecidableEq, Repr

def Key.all : List Key :=
  [.caseInsensitive, .knownFiles, .sortableSections]

def Key.text : Key → String
  | .caseInsensitive => "caseInsensitive"
  | .knownFiles => "knownFiles"
  | .sortableSections => "sortableSections"

def Key.ofText? (text : Units) : Option Key :=
  Key.all.find? fun key => Units.ofString key.text == text

/-- The `source` of a fault is the place that the settings were read from. -/
inductive Fault where
  | missing (path : String)
  | notJson (source : String)
  | notAnObject (source : String)
  | unknownKey (key : Units) (source : String)
  | notABoolean (source : String)
  | notNames (key : Key) (source : String)
  | options (fault : Options.Fault)
  deriving DecidableEq, Repr

/-- The message for a fault. What is wrong with text that is not JSON is not told any closer. -/
def Fault.message : Fault → Units
  | .missing path => s!"Configuration file not found: {path}"
  | .notJson source => s!"Invalid JSON in {source}: <json error>"
  | .notAnObject source => s!"Configuration in {source} must be a JSON object"
  | .unknownKey key source =>
    let valid := ", ".intercalate (Key.all.map Key.text)
    "Unknown configuration key \"" ++ key ++ s!"\" in {source}. Valid keys: {valid}"
  | .notABoolean source =>
    let name := Key.caseInsensitive.text
    s!"\"{name}\" in {source} must be a boolean"
  | .notNames key source =>
    let name := key.text
    s!"\"{name}\" in {source} must be an array of non-empty strings"
  | .options fault => fault.message

end ProjectOrder.Settings
