import ProjectOrder.Text.Search

/-! The object identifier that starts an entry or a record, and the comment after it. -/
namespace ProjectOrder.Document
open ProjectOrder.Text

/-- A line without its line feed. -/
abbrev Line := List Char

def isHexDigit (c : Char) : Bool :=
  c.isDigit || ('A' ≤ c && c ≤ 'F') || ('a' ≤ c && c ≤ 'f')

/-- Whether `s` is an object identifier: 24 hexadecimal digits. -/
def isIdentifier (s : List Char) : Bool :=
  s.length == 24 && s.all isHexDigit

/-- What follows an identifier that only blanks may precede. -/
def afterIdentifier? (s : List Char) : Option (List Char) :=
  let t := skipBlanks s
  if isIdentifier (t.take 24) then some (t.drop 24) else none

def afterCommentStart? (s : List Char) : Option (List Char) := do
  after? "/*" (← skipSomeBlanks? (← afterIdentifier? s))

/-- What follows the end of a comment, which only blanks may precede. -/
def afterCommentEnd? (s : List Char) : Option (List Char) :=
  after? "*/" (skipBlanks s)

end ProjectOrder.Document
