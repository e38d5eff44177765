import ProjectOrder.Text.Lowercase.Table

/-! Lower case of a whole text, the same in every language. -/
namespace ProjectOrder.Text

def inRanges (ranges : List (Nat × Nat)) (c : Char) : Bool :=
  ranges.any fun (first, last) => first ≤ c.toNat && c.toNat ≤ last

def isCaseIgnorable (c : Char) : Bool :=
  inRanges caseIgnorableRanges c

def isCased (c : Char) : Bool :=
  inRanges casedRanges c

def lowerChar (c : Char) : Char :=
  match caseRows.find? (·.covers c.toNat) with
  | some row => Char.ofNat (c.toNat + row.offset).toNat
  | none => c

/-- Whether a letter follows, with nothing but ignorable characters before it. -/
def leadsToCased (s : List Char) : Bool :=
  (s.dropWhile isCaseIgnorable).head?.any isCased

/-- Lower case of `c` before `rest`. A capital sigma that ends a word becomes a final one, and a
dotted capital I keeps its dot as a mark of its own. -/
def lowerIn (afterCased : Bool) (c : Char) (rest : List Char) : List Char :=
  if c = 'Σ' then if afterCased && !leadsToCased rest then ['ς'] else ['σ']
  else if c = 'İ' then ['i', '\u0307']
  else [lowerChar c]

def lowerAfter (afterCased : Bool) : List Char → List Char
  | [] => []
  | c :: r =>
    lowerIn afterCased c r ++ lowerAfter (if isCaseIgnorable c then afterCased else isCased c) r

def lowercase (s : List Char) : List Char :=
  lowerAfter false s

end ProjectOrder.Text
