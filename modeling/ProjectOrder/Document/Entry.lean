import ProjectOrder.Arrangement
import ProjectOrder.Document.Identifier

/-! The entries of an array: their names and their order. -/
namespace ProjectOrder.Document
open ProjectOrder.Name ProjectOrder.Text

inductive ArrayKey where
  | children
  | files
  | buildConfigurations
  | targets
  | packageProductDependencies
  | packageReferences
  deriving DecidableEq, Repr

def ArrayKey.all : List ArrayKey :=
  [.children, .files, .buildConfigurations, .targets, .packageProductDependencies,
    .packageReferences]

def ArrayKey.text : ArrayKey → String
  | .children => "children"
  | .files => "files"
  | .buildConfigurations => "buildConfigurations"
  | .targets => "targets"
  | .packageProductDependencies => "packageProductDependencies"
  | .packageReferences => "packageReferences"

/-- Whether the entries are all files, so that folders need no place of their own. -/
def ArrayKey.holdsFiles (key : ArrayKey) : Bool :=
  key == .files

/-- Whether an entry ends here: its comment closes, a comma follows and then only blanks. -/
def endsEntry (s : List Char) : Bool :=
  match (afterCommentEnd? s).bind (after? ",") with
  | some r => r.all isBlank
  | none => false

/-- Whether the word `in` stands here between blanks. -/
def startsPhase (s : List Char) : Bool :=
  match (skipSomeBlanks? s).bind (after? "in") with
  | some r => r.head?.any isBlank
  | none => false

/-- Whether the build phase of a file follows, inside its comment or after it. -/
def endsFileName (s : List Char) : Bool :=
  (afterCommentEnd? s).any startsPhase || startsPhase s

/-- The name that an entry is ordered by: its comment, less the build phase where files are listed.
An entry without such a comment has no name. -/
def ArrayKey.entryName (key : ArrayKey) (line : Line) : List Char :=
  let stop := if key.holdsFiles then endsFileName else endsEntry
  ((afterCommentStart? line).bind (nameUpTo stop)).getD []

def ArrayKey.entryRank (key : ArrayKey) (rules : Rules) (line : Line) : Rank :=
  if key.holdsFiles then rules.fileRank (key.entryName line) else rules.rank (key.entryName line)

def ArrayKey.arrange (key : ArrayKey) (rules : Rules) (entries : List Line) : Arrangement Line :=
  arrangeBy id (key.entryRank rules) entries

end ProjectOrder.Document
