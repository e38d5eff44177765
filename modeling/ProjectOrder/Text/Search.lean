import ProjectOrder.Text.Blank

/-! Searches within one line, and through the lines and words of a longer text. -/
namespace ProjectOrder.Text

/-- The shortest start of `s` within its line after which `stop` holds. -/
def upTo (stop : List Char → Bool) : List Char → Option (List Char)
  | [] => if stop [] then some [] else none
  | c :: r =>
    if stop (c :: r) then some []
    else if isLineTerminator c then none
    else (upTo stop r).map (c :: ·)

/-- The shortest start of `s` with at least one character, within its line, after which `stop` holds. -/
def someUpTo (stop : List Char → Bool) : List Char → Option (List Char)
  | [] => none
  | c :: r => if isLineTerminator c then none else (upTo stop r).map (c :: ·)

/-- The name that starts `s` once its blanks are skipped and that ends where `stop` first holds.
Blanks are given back one by one if no name follows them, so that a name may be a blank. -/
def nameUpTo (stop : List Char → Bool) : List Char → Option (List Char)
  | [] => none
  | c :: r =>
    if isBlank c then (nameUpTo stop r).or (someUpTo stop (c :: r))
    else someUpTo stop (c :: r)

/-- The rest of the text after each character of which `p` holds. -/
def restsAfter (p : Char → Bool) : List Char → List (List Char)
  | [] => []
  | c :: r => if p c then r :: restsAfter p r else restsAfter p r

def lineStarts (s : List Char) : List (List Char) :=
  s :: restsAfter isLineTerminator s

def isWordCharacter (c : Char) : Bool :=
  c.isAlphanum || c == '_'

/-- The rest of the text from each place that no word character precedes. -/
def wordStarts (s : List Char) : List (List Char) :=
  s :: restsAfter (!isWordCharacter ·) s

/-- The first result of `f` on what is left of `s`, from left to right. -/
def firstMatch (f : List Char → Option α) : List Char → Option α
  | [] => f []
  | c :: r => (f (c :: r)).or (firstMatch f r)

def anywhere (test : List Char → Bool) : List Char → Bool
  | [] => test []
  | c :: r => test (c :: r) || anywhere test r

def after? (word : String) (s : List Char) : Option (List Char) :=
  word.toList.isPrefixOf? s

end ProjectOrder.Text
