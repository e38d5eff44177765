import ProjectOrder.Document.Opening
import ProjectOrder.Name.Rank

/-! The options of a sort, and preferences that leave some of them open. -/
namespace ProjectOrder
open ProjectOrder.Document ProjectOrder.Name

/-- Files that have no extension and are no folders either. -/
def defaultKnownFiles : List String :=
  ["create_hash_table"]

/-- The kinds of section whose records have no order of their own. Arrays are sorted inside these
sections only, so that the list names kinds with few records, too. -/
def defaultSortableSections : List String :=
  ["PBXBuildFile", "PBXContainerItemProxy", "PBXFileReference", "PBXGroup", "PBXHeadersBuildPhase",
    "PBXNativeTarget", "PBXProject", "PBXReferenceProxy", "PBXResourcesBuildPhase",
    "PBXSourcesBuildPhase", "PBXTargetDependency", "PBXVariantGroup", "XCBuildConfiguration",
    "XCConfigurationList"]

def defaultMaxRecordLines : Int :=
  10000

/-- How a document is sorted. The section whose order decides linking is never among the sortable ones. -/
structure Options where
  ignoreCase : Bool
  knownFiles : List String
  sortableSections : List String
  maxRecordLines : Int
  keepsLinkOrder : linkOrderedSection ∉ sortableSections
  deriving DecidableEq

def Options.rules (options : Options) : Rules :=
  Rules.of options.ignoreCase options.knownFiles

inductive Options.Fault where
  | linkOrderNotKept
  deriving DecidableEq, Repr

def Options.Fault.message : Options.Fault → String
  | .linkOrderNotKept =>
    s!"{linkOrderedSection} cannot be sortable: its entry order is link-order significant"

/-- Options of which some may be left to the defaults. -/
structure Preferences where
  ignoreCase : Option Bool := none
  knownFiles : Option (List String) := none
  sortableSections : Option (List String) := none
  maxRecordLines : Option Int := none
  deriving DecidableEq, Repr

def Preferences.resolve (preferences : Preferences) : Except Options.Fault Options :=
  let sortableSections := preferences.sortableSections.getD defaultSortableSections
  if h : linkOrderedSection ∈ sortableSections then .error .linkOrderNotKept
  else .ok {
    ignoreCase := preferences.ignoreCase.getD false
    knownFiles := preferences.knownFiles.getD defaultKnownFiles
    sortableSections
    maxRecordLines := preferences.maxRecordLines.getD defaultMaxRecordLines
    keepsLinkOrder := h }

def Options.preferences (options : Options) : Preferences :=
  { ignoreCase := options.ignoreCase
    knownFiles := options.knownFiles
    sortableSections := options.sortableSections
    maxRecordLines := options.maxRecordLines }

theorem resolve_preferences (options : Options) : options.preferences.resolve = .ok options := by
  simp [Preferences.resolve, Options.preferences, options.keepsLinkOrder]

end ProjectOrder
