import ProjectOrder.Document.Entry

/-! The lines that open and close the regions of a document. -/
namespace ProjectOrder.Document
open ProjectOrder.Text

/-- The kind of the section whose order decides how a product is linked. -/
def linkOrderedSection : String :=
  "PBXFrameworksBuildPhase"

/-- What a line opens: an array, which closes at its own indentation, or a section of some kind. -/
inductive Opening where
  | array (key : ArrayKey) (indent : List Char)
  | section (kind : String)
  deriving DecidableEq, Repr

def keyAtStart? (s : List Char) : Option (ArrayKey × List Char) :=
  ArrayKey.all.findSome? fun key => (after? key.text s).map (key, ·)

/-- The array that a line opens, if it holds nothing else. -/
def arrayOpening? (line : Line) : Option Opening := do
  let (key, r) ← keyAtStart? (skipBlanks line)
  let r ← after? "(" (skipBlanks (← after? "=" (skipBlanks r)))
  if r.all isBlank then some (.array key (line.takeWhile isBlank)) else none

def sectionKind? (s : List Char) : Option String := do
  let (kind, r) := (← skipSomeBlanks? (← after? "Begin" s)).span (!isBlank ·)
  let _ ← after? "section" (← skipSomeBlanks? r)
  some (String.ofList kind)

/-- The section that a line opens, wherever in it the first marker stands. -/
def sectionOpening? (line : Line) : Option Opening :=
  (firstMatch sectionKind? line).map .section

/-- What a line opens in the document itself. -/
def opening? (line : Line) : Option Opening :=
  (arrayOpening? line).or (sectionOpening? line)

def afterBlanks (test : List Char → Bool) : List Char → Bool
  | [] => false
  | c :: r => isBlank c && (test r || afterBlanks test r)

def endsSectionHere (kind : String) (s : List Char) : Bool :=
  match after? "End" s with
  | none => false
  | some r => afterBlanks (fun t =>
      match after? kind t with
      | none => false
      | some u => ((skipSomeBlanks? u).bind (after? "section")).isSome) r

def Opening.closedBy (line : Line) : Opening → Bool
  | .array _ indent => (List.isPrefixOf? (indent ++ [')', ';']) line).any (·.all isBlank)
  | .section kind => anywhere (endsSectionHere kind) line

end ProjectOrder.Document
