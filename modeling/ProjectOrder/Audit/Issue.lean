import ProjectOrder.Document.Sort

/-! What an audit of a document finds. -/
namespace ProjectOrder.Audit
open ProjectOrder.Document

inductive Severity where
  /-- The document is not in order. -/
  | error
  | warning
  deriving DecidableEq, Repr

inductive Code where
  | unsortedArray
  | unsortedSection
  | duplicateEntries
  | unnamedEntries
  | unterminatedRegion
  | unbalancedRecord
  /-- A finding of another tool, which is shown among the others. -/
  | other (text : String)
  deriving DecidableEq, Repr

def Code.text : Code → String
  | .unsortedArray => "UNSORTED_ARRAY"
  | .unsortedSection => "UNSORTED_SECTION"
  | .duplicateEntries => "DUPLICATE_ENTRIES"
  | .unnamedEntries => "UNNAMED_ENTRIES"
  | .unterminatedRegion => "UNTERMINATED_REGION"
  | .unbalancedRecord => "UNBALANCED_RECORD"
  | .other text => text

def Code.isUnsorted (code : Code) : Bool :=
  code == .unsortedArray || code == .unsortedSection

def Code.isFault (code : Code) : Bool :=
  code == .unterminatedRegion || code == .unbalancedRecord

structure Issue where
  line : Int
  severity : Severity
  code : Code
  message : String
  deriving DecidableEq, Repr

def entryWord (n : Nat) : String :=
  if n = 1 then "entry" else "entries"

def describeRegion (tally : Tally) : String :=
  let name := tally.name
  if tally.kind = .array then s!"{name} array" else s!"{name} section"

/-- What sorting would change in a region, and whether entries of it have no name. -/
def issuesOf (tally : Tally) : List Issue :=
  let region := describeRegion tally
  let unsorted := if tally.kind = .array then Code.unsortedArray else .unsortedSection
  let duplicates := tally.duplicates
  let duplicateWord := entryWord duplicates
  let unnamed := tally.unnamed
  let unnamedWord := entryWord unnamed
  let issue (severity : Severity) (code : Code) (message : String) : Issue :=
    { line := tally.line, severity, code, message }
  (if tally.reordered then [issue .error unsorted s!"{region} is not sorted"] else []) ++
  (if duplicates > 0 then
    [issue .error .duplicateEntries s!"{region} contains {duplicates} duplicate {duplicateWord}"]
    else []) ++
  (if unnamed > 0 then
    [issue .warning .unnamedEntries
      s!"{region} has {unnamed} {unnamedWord} without a /* name */ comment, sorted under an empty name"]
    else [])

def issueOfFault (fault : Fault) : Issue :=
  let code := match fault with
    | .unterminated _ _ => Code.unterminatedRegion
    | .unbalanced _ _ => .unbalancedRecord
  { line := fault.line, severity := .error, code, message := fault.message }

end ProjectOrder.Audit
