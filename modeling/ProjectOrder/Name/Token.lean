import ProjectOrder.Text.Lowercase

/-! Names as numbers and texts, and their natural order. -/
namespace ProjectOrder.Name
open ProjectOrder.Text

def runs : List Char → List (List Char)
  | [] => []
  | c :: r =>
    match runs r with
    | [] => [[c]]
    | run :: rest =>
      if run.head?.any (·.isDigit != c.isDigit) then [c] :: run :: rest else (c :: run) :: rest

/-- A run of digits is a number that remembers how many digits it was written with. -/
inductive Token where
  | number (value digits : Nat)
  | text (value : List Char)
  deriving DecidableEq, Repr

def valueOfDigits (digits : List Char) : Nat :=
  digits.foldl (fun n d => n * 10 + (d.toNat - '0'.toNat)) 0

def foldCase (ignoreCase : Bool) (s : List Char) : List Char :=
  if ignoreCase then lowercase s else s

def Token.ofRun (ignoreCase : Bool) (run : List Char) : Token :=
  if run.head?.any Char.isDigit then .number (valueOfDigits run) run.length
  else .text (foldCase ignoreCase run)

def tokens (ignoreCase : Bool) (name : List Char) : List Token :=
  (runs name).map (Token.ofRun ignoreCase)

/-- Numbers come before texts. Of two writings of one number the shorter comes first. -/
def Token.compare : Token → Token → Ordering
  | .number v m, .number w n => (Ord.compare v w).then (Ord.compare m n)
  | .number _ _, .text _ => .lt
  | .text _, .number _ _ => .gt
  | .text s, .text t => Ord.compare s t

/-- Order by the first token that differs; a name comes before what adds tokens to it. -/
def compareTokens (s t : List Token) : Ordering :=
  List.compareLex Token.compare s t

end ProjectOrder.Name
