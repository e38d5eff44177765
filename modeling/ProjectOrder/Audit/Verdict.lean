import ProjectOrder.Audit.Issue

/-! The verdict of an audit, and its report. -/
namespace ProjectOrder.Audit
open ProjectOrder.Document

structure Verdict where
  /-- Whether sorting would change nothing. -/
  valid : Bool
  errors : Nat
  warnings : Nat
  issues : List Issue
  deriving DecidableEq, Repr

def Verdict.ofIssues (issues : List Issue) (sorted : Bool) : Verdict :=
  let issues := issues.mergeSort fun a b => decide (a.line ≤ b.line)
  let errors := issues.countP (·.severity == .error)
  let warnings := issues.countP (·.severity == .warning)
  { valid := sorted && errors == 0, errors, warnings, issues }

def Verdict.ofTallies (tallies : List Tally) (sorted : Bool) : Verdict :=
  .ofIssues (tallies.flatMap issuesOf) sorted

def audit (options : Options) (text : List Char) : Verdict :=
  match sortText options text with
  | .ok outcome => .ofTallies outcome.tallies !outcome.changed
  | .error fault => .ofIssues [issueOfFault fault] false

def Verdict.status (verdict : Verdict) : String :=
  if verdict.issues.any (·.code.isFault) then "cannot be sorted"
  else if verdict.valid then "sorted, with warnings"
  else "not sorted"

def Issue.render (issue : Issue) : String :=
  let mark := if issue.severity = .error then "✗" else "⚠"
  let line := issue.line
  let code := issue.code.text
  let message := issue.message
  s!"  {mark} Line {line}: [{code}] {message}"

/-- The report on the file at `path`: its status, each issue, and how many there are. -/
def Verdict.render (verdict : Verdict) (path : String) : String :=
  if verdict.valid && verdict.warnings == 0 then s!"✓ {path}: OK"
  else
    let mark := if verdict.valid then "⚠" else "✗"
    let status := verdict.status
    let unsorted := verdict.issues.countP (·.code.isUnsorted)
    let errors := verdict.errors
    let warnings := verdict.warnings
    "\n".intercalate ([s!"{mark} {path}: {status}"] ++ verdict.issues.map Issue.render ++
      ["", s!"  {unsorted} unsorted region(s), {errors} error(s), {warnings} warning(s)"])

end ProjectOrder.Audit
