import ProjectOrder.Document.Fault
import ProjectOrder.Document.RecordName
import ProjectOrder.Document.Segment
import ProjectOrder.Settings.Options

/-! Sorting the regions of a document in place. -/
namespace ProjectOrder.Document
open ProjectOrder.Name ProjectOrder.Text

inductive RegionKind where
  | array
  | section
  /-- A section that is copied because its kind is not sortable. -/
  | verbatim
  /-- A section that is always copied because its order decides how a product is linked. -/
  | linkOrdered
  deriving DecidableEq, Repr

structure Tally where
  kind : RegionKind
  name : String
  /-- The line that opens the region. -/
  line : Int
  entries : Nat := 0
  duplicates : Nat := 0
  reordered : Bool := false
  /-- How many of the entries that are left have no name. -/
  unnamed : Nat := 0
  deriving DecidableEq, Repr

def Tally.isChange (tally : Tally) : Bool :=
  tally.reordered || tally.duplicates > 0

/-- Sorted lines, with a tally of each region in the order in which the regions end. -/
structure Passage where
  lines : List Line
  tallies : List Tally
  deriving DecidableEq, Repr

def sortArray (rules : Rules) (key : ArrayKey) (line : Int) (entries : List Line) : Passage :=
  let arranged := key.arrange rules entries
  { lines := arranged.entries
    tallies := [{
      kind := .array, name := key.text, line
      entries := entries.length
      duplicates := arranged.duplicates
      reordered := arranged.reordered
      unnamed := arranged.entries.countP fun entry => (key.entryName entry).isEmpty }] }

/-- Puts segments together again, with the inside of each region as `sortBody` leaves it. Lines count
from `first`. -/
def sortSegments (sortBody : Opening → (line : Int) → List Line → Except Fault Passage) :
    (first : Int) → List Segment → Except Fault Passage
  | _, [] => .ok { lines := [], tallies := [] }
  | first, .plain line :: rest => do
    let after ← sortSegments sortBody (first + 1) rest
    pure { after with lines := line :: after.lines }
  | first, .region opening head body closing :: rest => do
    let inside ← sortBody opening first body
    let after ← sortSegments sortBody (first + body.length + 2) rest
    pure { lines := head :: (inside.lines ++ closing :: after.lines)
           tallies := inside.tallies ++ after.tallies }
  | first, .unclosed opening _ _ :: _ => .error (.unterminated opening first)

def sortArrayBody (rules : Rules) (opening : Opening) (line : Int) (body : List Line) :
    Except Fault Passage :=
  match opening with
  | .array key _ => .ok (sortArray rules key line body)
  | .section _ => .ok { lines := body, tallies := [] }

def sortRecordBody (rules : Rules) (first : Int) (body : List Line) : Except Fault Passage :=
  sortSegments (sortArrayBody rules) first (segments arrayOpening? body)

/-- Sorts the records of a section by name, once the arrays inside each of them are sorted. -/
def sortSection (options : Options) (kind : String) (line : Int) (body : List Line) :
    Except Fault Passage := do
  let split ← (splitRecords options.maxRecordLines (line + 1) body).mapError (.unbalanced kind)
  let sorted ← (numberRecords (line + 1) split.records).mapM fun (first, record) => do
    let inside ← sortRecordBody options.rules first record.body
    pure ({ record with body := inside.lines }, inside.tallies)
  let arranged := arrangeRecords options.rules Record.lines (unlines ·.body) (sorted.map (·.1))
  let tally := {
    kind := .section, name := kind, line
    entries := split.records.length
    duplicates := arranged.duplicates
    reordered := arranged.reordered }
  pure { lines := arranged.entries.flatten ++ split.trailing
         tallies := sorted.flatMap (·.2) ++ [tally] }

/-- Sorts the inside of a region, unless it is a section that has to stay as it is. -/
def sortBody (options : Options) (opening : Opening) (line : Int) (body : List Line) :
    Except Fault Passage :=
  match opening with
  | .array key _ => .ok (sortArray options.rules key line body)
  | .section kind =>
    if kind = linkOrderedSection then
      .ok { lines := body, tallies := [{ kind := .linkOrdered, name := kind, line }] }
    else if kind ∈ options.sortableSections then sortSection options kind line body
    else .ok { lines := body, tallies := [{ kind := .verbatim, name := kind, line }] }

def sortLines (options : Options) (lines : List Line) : Except Fault Passage :=
  sortSegments (sortBody options) 1 (segments opening? lines)

structure Outcome where
  text : List Char
  changed : Bool
  tallies : List Tally
  deriving DecidableEq, Repr

def sortText (options : Options) (text : List Char) : Except Fault Outcome := do
  let sorted ← sortLines options (Text.lines text)
  let result := unlines sorted.lines
  pure { text := result, changed := result != text, tallies := sorted.tallies }

end ProjectOrder.Document
