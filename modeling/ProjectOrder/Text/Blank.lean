/-! Blank characters, line terminators and the scans that skip them. -/
namespace ProjectOrder.Text

/-- A space of any width, a tab, a line terminator or a byte order mark. -/
def isBlank (c : Char) : Bool :=
  let n := c.toNat
  (9 ≤ n && n ≤ 13) || n == 0x20 || n == 0xA0 || n == 0x1680 || (0x2000 ≤ n && n ≤ 0x200A) ||
    n == 0x2028 || n == 0x2029 || n == 0x202F || n == 0x205F || n == 0x3000 || n == 0xFEFF

/-- A character that ends a line inside a record. Documents themselves are split at line feeds alone. -/
def isLineTerminator (c : Char) : Bool :=
  c == '\n' || c == '\r' || c == '\u2028' || c == '\u2029'

def skipBlanks (s : List Char) : List Char :=
  s.dropWhile isBlank

/-- Skips the blanks at the start, of which there must be one. -/
def skipSomeBlanks? : List Char → Option (List Char)
  | [] => none
  | c :: r => if isBlank c then some (skipBlanks r) else none

def trimEnd (s : List Char) : List Char :=
  (s.reverse.dropWhile isBlank).reverse

/-- Whether the first character that is no blank is `c`. -/
def leadsTo (c : Char) (s : List Char) : Bool :=
  (skipBlanks s).head? == some c

end ProjectOrder.Text
