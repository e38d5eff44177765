import ProjectOrder.Text.Split

/-! Paths as texts, without a look at the disk. -/
namespace ProjectOrder.Disk.Path
open ProjectOrder.Text

def components (path : String) : List String :=
  ((splitAt '/' path.toList).filter (· ≠ [])).map String.ofList

def isAbsolute (path : String) : Bool :=
  path.toList.head? == some '/'

def isPath (text : String) : Bool :=
  !text.toList.contains '\x00'

def endsInSlash (path : String) : Bool :=
  path.toList.getLast? == some '/'

def endsWith (ending : String) (path : String) : Bool :=
  ending.toList.isSuffixOf path.toList

/-- The last component, which is empty if there is none. -/
def name (path : String) : String :=
  (components path).getLast?.getD ""

/-- Takes one component onto a path that is held in reverse. A step up undoes the step before it, if
there is one; nothing is above the root. -/
def step (absolute : Bool) (taken : List String) (component : String) : List String :=
  if component = "." then taken
  else if component = ".." then
    match taken with
    | [] => if absolute then [] else [".."]
    | last :: before => if last = ".." then ".." :: taken else before
  else component :: taken

/-- The path with these components, without steps that stay in place or undo one another. -/
def normal (absolute : Bool) (components : List String) : String :=
  let taken := (components.foldl (step absolute) []).reverse
  (if absolute then "/" else "") ++ "/".intercalate taken

def child (directory name : String) : String :=
  normal (isAbsolute directory) (components directory ++ [name])

def sibling (path name : String) : String :=
  normal (isAbsolute path) ((components path).dropLast ++ [name])

/-- The same place as seen from the root. -/
def absolute (workingDirectory path : String) : String :=
  if isAbsolute path then normal true (components path)
  else normal true (components workingDirectory ++ components path)

end ProjectOrder.Disk.Path
