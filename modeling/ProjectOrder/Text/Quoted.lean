import ProjectOrder.Text.Utf16

/-! Texts between quotes, as messages show them. -/
namespace ProjectOrder.Text

/-- Whether a text holds a backquote, or what opens a gap between backquotes. -/
def breaksBackquotes : List Char → Bool
  | '$' :: '\x7b' :: _ => true
  | c :: r => c == '\x60' || breaksBackquotes r
  | [] => false

/-- The first of three quotes that a text does not hold, and the single one if it holds all. -/
def quoteFor (s : List Char) : Char :=
  if !s.contains '\x27' then '\x27'
  else if !s.contains '\x22' then '\x22'
  else if !breaksBackquotes s then '\x60'
  else '\x27'

def upperHexDigit (n : Nat) : Char :=
  (Nat.digitChar n).toUpper

/-- A character between quotes: controls, backslashes and the quote itself are escaped. -/
def escapeIn (quote c : Char) : List Char :=
  if c = quote ∨ c = '\\' then ['\\', c]
  else if c = '\x08' then ['\\', 'b']
  else if c = '\t' then ['\\', 't']
  else if c = '\n' then ['\\', 'n']
  else if c = '\x0c' then ['\\', 'f']
  else if c = '\r' then ['\\', 'r']
  else if c.toNat < 0x20 ∨ 0x7F ≤ c.toNat ∧ c.toNat ≤ 0x9F then
    ['\\', 'x', upperHexDigit (c.toNat / 16), upperHexDigit (c.toNat % 16)]
  else [c]

def quoted (s : List Char) : List Char :=
  let quote := quoteFor s
  quote :: (s.flatMap (escapeIn quote) ++ [quote])

def pieces : List Char → List (List Char)
  | [] => []
  | c :: r =>
    if c = '\n' then [c] :: pieces r
    else match pieces r with
      | [] => [[c]]
      | p :: ps => (c :: p) :: ps

/-- The most units of a text that is quoted as one piece, whatever its lines are. -/
def maxPiece : Nat :=
  76

def maxExcerpt : Nat :=
  128

/-- A text between quotes, cut off where it becomes too long. A long text is quoted line by line. -/
def excerpt (s : List Char) : List Char :=
  let shown :=
    if (Utf16.encode s).length ≤ maxPiece then quoted s
    else " +\n  ".toList.intercalate ((pieces s).map quoted)
  let units := Utf16.encode shown
  if units.length ≤ maxExcerpt then shown
  else Utf16.decode (units.take maxExcerpt) ++ "...".toList

end ProjectOrder.Text
