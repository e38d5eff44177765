/-! UTF-8: writing, strict reading and reading with replacement of what cannot be read. -/
namespace ProjectOrder.Text.Utf8

/-- Six bits in each byte after the first, and the others behind a mark that tells how many follow. -/
def encodeChar (c : Char) : List UInt8 :=
  let n := c.toNat
  let byte (lead unit : Nat) : UInt8 := UInt8.ofNat (lead + n / unit % 0x40)
  if n < 0x80 then [UInt8.ofNat n]
  else if n < 0x800 then [byte 0xC0 0x40, byte 0x80 1]
  else if n < 0x10000 then [byte 0xE0 0x1000, byte 0x80 0x40, byte 0x80 1]
  else [byte 0xF0 0x40000, byte 0x80 0x1000, byte 0x80 0x40, byte 0x80 1]

def encode (s : List Char) : List UInt8 :=
  s.flatMap encodeChar

/-- Reads `n` continuation bytes, the first of them between `low` and `high`, onto the bits read so
far. Gives the value, if all are there, and the bytes that it did not take. -/
def readContinuation (low high : UInt8) (value : Nat) : Nat → List UInt8 → Option Nat × List UInt8
  | 0, r => (some value, r)
  | _ + 1, [] => (none, [])
  | n + 1, b :: r =>
    if low ≤ b && b ≤ high then
      readContinuation 0x80 0xBF (value * 64 + (b.toNat - 0x80)) n r
    else (none, b :: r)

/-- Reads the character that starts with `lead`. The bounds of the second byte exclude values that
a shorter form could write, surrogates and values past the last character. -/
def readChar (lead : UInt8) (r : List UInt8) : Option Char × List UInt8 :=
  let (value, rest) :=
    if lead < 0x80 then (some lead.toNat, r)
    else if 0xC2 ≤ lead && lead ≤ 0xDF then readContinuation 0x80 0xBF (lead.toNat - 0xC0) 1 r
    else if lead == 0xE0 then readContinuation 0xA0 0xBF 0 2 r
    else if lead == 0xED then readContinuation 0x80 0x9F 0xD 2 r
    else if 0xE1 ≤ lead && lead ≤ 0xEF then readContinuation 0x80 0xBF (lead.toNat - 0xE0) 2 r
    else if lead == 0xF0 then readContinuation 0x90 0xBF 0 3 r
    else if lead == 0xF4 then readContinuation 0x80 0x8F 4 3 r
    else if 0xF1 ≤ lead && lead ≤ 0xF3 then readContinuation 0x80 0xBF (lead.toNat - 0xF0) 3 r
    else (none, r)
  (value.map Char.ofNat, rest)

theorem length_readContinuation_le (low high : UInt8) (value n : Nat) (r : List UInt8) :
    (readContinuation low high value n r).2.length ≤ r.length := by
  fun_induction readContinuation low high value n r <;> grind

theorem length_readChar_le (lead : UInt8) (r : List UInt8) :
    (readChar lead r).2.length ≤ r.length := by
  simp only [readChar]
  (repeat' split) <;> simp [length_readContinuation_le]

/-- Each character that starts the bytes in turn, or nothing for the longest start that could have
become a character, or for a byte that starts none. -/
def readAll : List UInt8 → List (Option Char)
  | [] => []
  | lead :: r => (readChar lead r).1 :: readAll (readChar lead r).2
termination_by bytes => bytes.length
decreasing_by exact Nat.lt_succ_of_le (length_readChar_le lead r)

/-- The text that the bytes write, if all of them do. A byte order mark is a character of the text. -/
def decode? (bytes : List UInt8) : Option (List Char) :=
  (readAll bytes).mapM id

/-- The text that the bytes write, with U+FFFD for what is no part of a character. -/
def decodeLossy (bytes : List UInt8) : List Char :=
  (readAll bytes).map (·.getD '\uFFFD')

end ProjectOrder.Text.Utf8
