import ProjectOrder.Document.Opening

/-! What can be wrong with a document. -/
namespace ProjectOrder.Document

def Opening.describe : Opening → String
  | .array key _ =>
    let name := key.text
    s!"{name} array"
  | .section kind => s!"{kind} section"

/-- The `line` of a fault is where the region or the record starts. -/
inductive Fault where
  | unterminated (opening : Opening) (line : Int)
  | unbalanced (kind : String) (line : Int)
  deriving DecidableEq, Repr

def Fault.line : Fault → Int
  | .unterminated _ line => line
  | .unbalanced _ line => line

def Fault.message : Fault → String
  | .unterminated opening line =>
    let region := opening.describe
    s!"Unexpected end of file while parsing {region} opened at line {line}"
  | .unbalanced kind line => s!"Unbalanced braces in {kind} record starting at line {line}"

end ProjectOrder.Document
