import ProjectOrder.Distinct
import ProjectOrder.Name.Token

/-! The rank of a name among its siblings: folders first, then natural order. -/
namespace ProjectOrder.Name

/-- How names are told apart, and which names without an extension are files. -/
structure Rules where
  ignoreCase : Bool
  /-- Written as `foldCase` writes the names that are looked up. -/
  knownFiles : List (List Char)
  deriving DecidableEq, Repr

/-- Rules that know each of the files once. -/
def Rules.of (ignoreCase : Bool) (knownFiles : List String) : Rules :=
  { ignoreCase, knownFiles := distinct (knownFiles.map (foldCase ignoreCase ·.toList)) }

def hasExtension (name : List Char) : Bool :=
  match name.reverse.span (· ≠ '.') with
  | (_ :: _, '.' :: _) => true
  | _ => false

/-- Whether a name is that of a folder. No name at all counts as a file. -/
def Rules.isFolder (rules : Rules) (name : List Char) : Bool :=
  let folded := foldCase rules.ignoreCase name
  !name.isEmpty && !hasExtension folded && !rules.knownFiles.contains folded

structure Rank where
  folder : Bool
  name : List Token
  deriving DecidableEq, Repr

def Rank.compare (a b : Rank) : Ordering :=
  match a.folder, b.folder with
  | true, false => .lt
  | false, true => .gt
  | _, _ => compareTokens a.name b.name

def Rules.fileRank (rules : Rules) (name : List Char) : Rank :=
  { folder := false, name := tokens rules.ignoreCase name }

def Rules.rank (rules : Rules) (name : List Char) : Rank :=
  { folder := rules.isFolder name, name := tokens rules.ignoreCase name }

end ProjectOrder.Name
